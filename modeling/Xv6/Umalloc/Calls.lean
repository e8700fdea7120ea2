import Xv6.Umalloc.Inv

/-!
# The calls of the allocator

On an ordered circular list the searches of `free` and `malloc` end, and stop where the invariant
needs them to. So a call keeps the invariant, as long as all the memory from `sbrk` is less than
`2 ^ 32` units, the range of a header's size.
-/

namespace Umalloc

open Tiling
open List (append_of_mem map_cons map_nil mem_append_left mem_cons mem_cons_self mem_map
  pairwise_cons)

/-! ## The search of `free` -/

section Search

variable {base bp u : Nat} {mem : Memory} {q : Nat × Nat}
  {free l r taken chunks : List (Nat × Nat)}

/-- The test of the search picks the node after which the block belongs. -/
theorem Inv.stops_iff (inv : Inv base mem (l ++ q :: r) ((bp, u) :: taken) chunks) :
    mem.stops bp q.1 = true ↔ q.1 < bp ∧ ∀ y ∈ r, bp < y.1 := by
  have points := inv.next_eq
  have above : base < bp := inv.layout.base_lt (mem_cons_self ..)
  have low : base ≤ q.1 := inv.layout.base_le (List.mem_append_right l (mem_cons_self ..))
  simp only [Memory.stops, points, Bool.or_eq_true, Bool.and_eq_true, decide_eq_true_eq]
  cases r with
  | nil =>
    -- The last node points back to `base`.
    simp only [map_nil, List.headD_nil, List.not_mem_nil, false_imp_iff, implies_true,
      and_true]
    omega
  | cons n r =>
    obtain ⟨-, ordered, -, high, -⟩ := ordered_append.mp inv.layout.ordered
    have before := high n (mem_cons_self ..)
    have rest : (∀ y ∈ n :: r, bp < y.1) ↔ bp < n.1 := by
      rw [List.forall_mem_cons, and_iff_left_iff_imp]
      intro first y node
      have later := (pairwise_cons.mp ordered).1 y node
      unfold Before at later
      omega
    rw [rest, map_cons, List.headD_cons]
    unfold Before at before
    omega

theorem exists_place (ordered : free.Pairwise Before) (head : free.head? = some c)
    (above : c.1 < bp) (fresh : ∀ b ∈ free, b.1 ≠ bp) :
    ∃ l q r, free = l ++ q :: r ∧ q.1 < bp ∧ ∀ y ∈ r, bp < y.1 := by
  induction free generalizing c with
  | nil => cases head
  | cons a free ih =>
    obtain rfl : a = c := Option.some.inj head
    cases free with
    | nil => exact ⟨[], a, [], rfl, above, by simp⟩
    | cons b free =>
      obtain ⟨-, ordered⟩ := pairwise_cons.mp ordered
      obtain ⟨-, fresh⟩ := List.forall_mem_cons.mp fresh
      by_cases below : b.1 < bp
      · obtain ⟨l, q, r, at_, place⟩ := ih ordered rfl below fresh
        exact ⟨a :: l, q, r, by rw [at_]; rfl, place⟩
      have ne := fresh b (mem_cons_self ..)
      refine ⟨[], a, b :: free, rfl, above, List.forall_mem_cons.mpr ⟨by omega, ?_⟩⟩
      intro y node
      have later := (pairwise_cons.mp ordered).1 y node
      unfold Before at later
      omega

theorem Inv.exists_stop (inv : Inv base mem free ((bp, u) :: taken) chunks) :
    ∃ a ∈ free.map Prod.fst, mem.stops bp a := by
  have layout := inv.layout
  obtain ⟨l, q, r, rfl, place⟩ := exists_place layout.ordered layout.head
    (layout.base_lt (mem_cons_self ..))
    (fun b node => layout.other_taken b (mem_append_left _ node))
  exact ⟨q.1, by simp, inv.stops_iff.mpr place⟩

end Search

/-- A state of an allocator whose free list is set up. -/
structure Ready (base : Nat) (s : State) (free taken : List (Nat × Nat)) : Prop where
  inv : Inv base s.mem free taken s.chunks
  start : s.freep ∈ free.map Prod.fst
  past : ∀ x ∈ s.chunks.flatMap (cells 16), x + 16 ≤ s.brk
  low : base + 16 ≤ s.brk

section Calls

variable {base bp u n p : Nat} {s s' : State} {free taken : List (Nat × Nat)}

theorem Ready.base_le (ready : Ready base s free taken) : base ≤ s.freep := by
  obtain ⟨b, node, at_⟩ := mem_map.mp ready.start
  rw [← at_]
  exact ready.inv.layout.base_le node

theorem free_frame (run : s.free fuel ap = some s') :
    s'.chunks = s.chunks ∧ s'.brk = s.brk ∧ s'.live = s.live := by
  unfold State.free at run
  dsimp only at run
  split at run
  · cases run
  · obtain rfl := Option.some.inj run
    exact ⟨rfl, rfl, rfl⟩

theorem Ready.free_keeps (ready : Ready base s free ((bp, u) :: taken))
    (small : total s.chunks < 2 ^ 32) (run : s.free fuel (bp + 16) = some s') :
    ∃ free', Ready base s' free' taken ∧ ∃ b ∈ free', u ≤ b.2 := by
  unfold State.free at run
  dsimp only at run
  split at run
  · cases run
  rename_i q found
  obtain rfl := Option.some.inj run
  have inv := ready.inv
  obtain ⟨at_, stops⟩ := Linked.search_some
    (P := (· ∈ free.map Prod.fst)) (fun a => inv.ring.closed inv.head) ready.start found
  obtain ⟨q, node, rfl⟩ := mem_map.mp at_
  obtain ⟨l, r, rfl⟩ := append_of_mem node
  obtain ⟨after, before⟩ := inv.stops_iff.mp stops
  obtain ⟨free', inv, start, large⟩ := inv.insert after before small
  exact ⟨free', ⟨inv, start, ready.past, ready.low⟩, large⟩

theorem Ready.free_ends (ready : Ready base s free ((bp, u) :: taken)) :
    ∃ bound s', ∀ fuel, bound ≤ fuel → s.free fuel (bp + 16) = some s' := by
  obtain ⟨q, run⟩ := Linked.search_ring ready.inv.ring ready.inv.head ready.start
    ready.inv.exists_stop
  refine ⟨(free.map Prod.fst).length,
    { s with mem := (s.mem.joinUpper bp q).joinLower bp q, freep := q }, ?_⟩
  intro fuel enough
  unfold State.free
  dsimp only
  rw [Nat.add_sub_cancel, run fuel enough]

theorem Ready.sbrk (ready : Ready base s free taken) (above : s.brk ≤ p) (pos : 0 < nu)
    (small : nu < 2 ^ 32) :
    Ready base { s with
        mem := s.mem.setSize p nu, brk := p + 16 * nu, chunks := s.chunks ++ [(p, nu)] }
      free ((p, nu) :: taken) := by
  have low := ready.low
  have past : ∀ x ∈ s.chunks.flatMap (cells 16), x + 16 ≤ p :=
    fun x mem => (ready.past x mem).trans above
  refine ⟨ready.inv.grow past (by omega) pos small, ready.start, ?_, ?_⟩
  · intro x mem
    rw [List.flatMap_append, List.flatMap_singleton] at mem
    rcases List.mem_append.mp mem with mem | mem
    · have := past x mem
      dsimp only
      omega
    · obtain ⟨i, below, rfl⟩ := mem_cells.mp mem
      dsimp only at below ⊢
      omega
  · dsimp only
    omega

/-- What `morecore` can do: fail, or free new memory for at least `n` units. -/
theorem morecore_cases (run : s.morecore fuel n answer = some (s', p)) :
    (answer = none ∧ s' = s ∧ p = 0) ∨
      ∃ q nu, answer = some q ∧ nu = max n 4096 ∧ s.brk ≤ q ∧
        State.free fuel { s with
          mem := s.mem.setSize q nu, brk := q + 16 * nu, chunks := s.chunks ++ [(q, nu)] }
          (q + 16) = some s' ∧ p = s'.freep := by
  unfold State.morecore at run
  cases answer with
  | none =>
    obtain ⟨rfl, rfl⟩ := Prod.mk.inj (Option.some.inj run)
    exact .inl ⟨rfl, rfl, rfl⟩
  | some q =>
    refine .inr ⟨q, if n < 4096 then 4096 else n, rfl, ?_, ?_⟩
    · split
      · omega
      · omega
    dsimp only at run
    unfold State.sbrk at run
    by_cases above : s.brk ≤ q
    · rw [if_pos above] at run
      dsimp only at run
      split at run
      · cases run
      · next freed =>
        obtain ⟨rfl, rfl⟩ := Prod.mk.inj (Option.some.inj run)
        exact ⟨above, freed, rfl⟩
    · rw [if_neg above] at run
      cases run

theorem Ready.morecore (ready : Ready base s free taken)
    (run : s.morecore fuel n answer = some (s', p)) (small : total s'.chunks < 2 ^ 32) :
    s'.live = s.live ∧ ((p = 0 ∧ s' = s) ∨
      (p = s'.freep ∧ ∃ free', Ready base s' free' taken ∧ ∃ b ∈ free', n ≤ b.2)) := by
  rcases morecore_cases run with ⟨-, rfl, rfl⟩ | ⟨q, nu, -, large, above, freed, rfl⟩
  · exact ⟨rfl, .inl ⟨rfl, rfl⟩⟩
  obtain ⟨chunks, -, live⟩ := free_frame freed
  rw [chunks] at small
  have room : nu < 2 ^ 32 := by
    rw [total_concat] at small
    exact Nat.lt_of_le_of_lt (Nat.le_add_left ..) small
  obtain ⟨free', ready, b, node, size⟩ := (ready.sbrk above (by omega) room).free_keeps small freed
  exact ⟨live, .inr ⟨rfl, free', ready, b, node, by omega⟩⟩

theorem morecore_total (run : s.morecore fuel n answer = some (s', p)) :
    total s.chunks ≤ total s'.chunks := by
  rcases morecore_cases run with ⟨-, rfl, -⟩ | ⟨q, nu, -, -, -, freed, -⟩
  · exact le_rfl
  · rw [(free_frame freed).1, total_concat]
    exact Nat.le_add_right ..

theorem mallocLoop_total (run : State.mallocLoop n fuel s prevp p answers = some (s', ap)) :
    total s.chunks ≤ total s'.chunks := by
  induction fuel generalizing s prevp p answers with
  | zero => cases run
  | succ fuel ih =>
    unfold State.mallocLoop at run
    split at run
    · obtain ⟨rfl, -⟩ := Prod.mk.inj (Option.some.inj run)
      exact le_rfl
    split at run
    · cases answers with
      | nil => cases run
      | cons answer answers =>
        dsimp only at run
        split at run
        · cases run
        rename_i more
        have grown := morecore_total more
        split at run
        · obtain ⟨rfl, -⟩ := Prod.mk.inj (Option.some.inj run)
          exact grown
        · exact grown.trans (ih run)
    · exact ih run

/-- **The search of `malloc`**, from any node, with what the call returns. -/
theorem Ready.mallocLoop (pos : 0 < n) (ready : Ready base s free taken)
    (prev : prevp ∈ free.map Prod.fst)
    (run : State.mallocLoop n fuel s prevp (s.mem.next prevp) answers = some (s', ap))
    (small : total s'.chunks < 2 ^ 32) :
    s'.live = s.live ∧ ∃ free', (ap = 0 ∧ Ready base s' free' taken) ∨
      ∃ bp, ap = bp + 16 ∧ Ready base s' free' ((bp, n) :: taken) := by
  induction fuel generalizing s free prevp answers with
  | zero => cases run
  | succ fuel ih =>
    unfold State.mallocLoop at run
    split at run
    · next enough =>
      obtain ⟨rfl, rfl⟩ := Prod.mk.inj (Option.some.inj run)
      obtain ⟨q, node, rfl⟩ := mem_map.mp prev
      obtain ⟨l, r, rfl⟩ := append_of_mem node
      have points := ready.inv.next_eq
      cases r with
      | nil =>
        -- `base` has no units.
        have empty := ready.inv.sizes (base, 0)
          (mem_append_left _ (List.mem_of_mem_head? ready.inv.layout.head))
        rw [points, map_nil, List.headD_nil, empty] at enough
        omega
      | cons p r =>
        rw [points, map_cons, List.headD_cons] at enough ⊢
        rw [ready.inv.sizes p (by simp)] at enough
        obtain ⟨free', inv, start⟩ := ready.inv.carve pos enough small
        exact ⟨rfl, free', .inr ⟨_, rfl, inv, start, ready.past, ready.low⟩⟩
    · split at run
      · cases answers with
        | nil => cases run
        | cons answer answers =>
          dsimp only at run
          split at run
          · cases run
          rename_i more
          split at run
          · obtain ⟨rfl, rfl⟩ := Prod.mk.inj (Option.some.inj run)
            obtain ⟨live, out⟩ := ready.morecore more small
            rcases out with ⟨-, rfl⟩ | ⟨-, free', ready, -⟩
            · exact ⟨live, free, .inl ⟨rfl, ready⟩⟩
            · exact ⟨live, free', .inl ⟨rfl, ready⟩⟩
          · next ne =>
            have below := mallocLoop_total run
            obtain ⟨live, out⟩ := ready.morecore more (by omega)
            rcases out with ⟨zero, -⟩ | ⟨rfl, free', ready, -⟩
            · exact absurd zero ne
            · obtain ⟨live', out⟩ := ih ready ready.start run
              exact ⟨live'.trans live, out⟩
      · exact ih ready (ready.inv.ring.closed ready.inv.head prev) run

/-! ## The calls end -/

theorem morecore_free (above : s.brk ≤ p)
    (freed : State.free fuel { s with
      mem := s.mem.setSize p (max n 4096), brk := p + 16 * max n 4096,
      chunks := s.chunks ++ [(p, max n 4096)] } (p + 16) = some s') :
    s.morecore fuel n (some p) = some (s', s'.freep) := by
  have grain : (if n < 4096 then 4096 else n) = max n 4096 := by
    split
    · omega
    · omega
  unfold State.morecore State.sbrk
  dsimp only
  rw [grain, if_pos above]
  dsimp only
  rw [freed]

theorem Ready.morecore_ends (ready : Ready base s free taken) (small : total s.chunks < 2 ^ 32)
    (fresh : ∀ p, answer = some p → s.brk ≤ p ∧ total s.chunks + max n 4096 < 2 ^ 32) :
    ∃ bound s' p, s'.chunks = s.chunks ++ (answer.map (·, max n 4096)).toList ∧
      total s'.chunks < 2 ^ 32 ∧
      ∀ fuel, bound ≤ fuel → s.morecore fuel n answer = some (s', p) := by
  cases answer with
  | none => exact ⟨0, s, 0, (List.append_nil _).symm, small, fun _ _ => rfl⟩
  | some p =>
    obtain ⟨above, room⟩ := fresh p rfl
    have pos : 0 < max n 4096 := by omega
    obtain ⟨bound, s', run⟩ := (ready.sbrk above pos (by omega)).free_ends
    have chunks := (free_frame (run bound le_rfl)).1
    refine ⟨bound, s', s'.freep, chunks, ?_, ?_⟩
    · rw [chunks, total_concat]
      exact room
    · intro fuel enough
      exact morecore_free above (run fuel enough)

section Scan

variable {a c : Nat} {w : List Nat}

theorem mallocLoop_take (answers : List (Option Nat)) (points : s.mem.next a = x)
    (enough : n ≤ s.mem.size x) :
    ∃ out, out.1.chunks = s.chunks ∧ ∀ fuel, 0 < fuel →
      State.mallocLoop n fuel s a (s.mem.next a) answers = some out := by
  refine ⟨({ s with mem := (s.mem.carve n a x).1, freep := a }, (s.mem.carve n a x).2 + 16),
    rfl, ?_⟩
  intro fuel positive
  obtain ⟨fuel, rfl⟩ : ∃ k, fuel = k + 1 := Nat.exists_eq_succ_of_ne_zero (by omega)
  unfold State.mallocLoop
  rw [points, if_pos enough]

theorem scan_found (answers : List (Option Nat)) (linked : Linked s.mem.next (a :: w ++ [c]))
    (other : ∀ x ∈ w, x ≠ s.freep) (large : ∃ x ∈ w ++ [c], n ≤ s.mem.size x) :
    ∃ out, out.1.chunks = s.chunks ∧ ∀ fuel, w.length < fuel →
      State.mallocLoop n fuel s a (s.mem.next a) answers = some out := by
  induction w generalizing a with
  | nil =>
    obtain ⟨points, -⟩ := Linked.cons_cons.mp linked
    obtain ⟨x, at_, enough⟩ := large
    obtain rfl : x = c := List.mem_singleton.mp at_
    exact mallocLoop_take answers points enough
  | cons x w ih =>
    obtain ⟨points, linked⟩ := Linked.cons_cons.mp linked
    by_cases enough : n ≤ s.mem.size x
    · obtain ⟨out, kept, run⟩ := mallocLoop_take answers points enough
      exact ⟨out, kept, fun fuel positive => run fuel (by omega)⟩
    have later : ∃ x ∈ w ++ [c], n ≤ s.mem.size x := by
      obtain ⟨y, at_, large⟩ := large
      rcases mem_cons.mp at_ with rfl | at_
      · exact absurd large enough
      · exact ⟨y, at_, large⟩
    obtain ⟨out, kept, run⟩ := ih linked (fun y at_ => other y (List.mem_cons_of_mem _ at_)) later
    refine ⟨out, kept, ?_⟩
    intro fuel positive
    obtain ⟨fuel, rfl⟩ : ∃ k, fuel = k + 1 := Nat.exists_eq_succ_of_ne_zero (by omega)
    unfold State.mallocLoop
    rw [points, if_neg enough, if_neg (other x (mem_cons_self ..))]
    exact run fuel (Nat.lt_of_succ_lt_succ positive)

theorem scan_none (answers : List (Option Nat)) (linked : Linked s.mem.next (a :: w ++ [c]))
    (other : ∀ x ∈ w, x ≠ s.freep) (small : ∀ x ∈ w, ¬ n ≤ s.mem.size x) :
    ∃ prevp, ∀ fuel, State.mallocLoop n (fuel + w.length) s a (s.mem.next a) answers =
      State.mallocLoop n fuel s prevp c answers := by
  induction w generalizing a with
  | nil =>
    obtain ⟨points, -⟩ := Linked.cons_cons.mp linked
    exact ⟨a, fun fuel => by rw [points]; rfl⟩
  | cons x w ih =>
    obtain ⟨points, linked⟩ := Linked.cons_cons.mp linked
    obtain ⟨prevp, run⟩ := ih linked (fun y at_ => other y (List.mem_cons_of_mem _ at_))
      (fun y at_ => small y (List.mem_cons_of_mem _ at_))
    refine ⟨prevp, ?_⟩
    intro fuel
    rw [List.length_cons, ← Nat.add_assoc, ← run fuel]
    conv_lhs => unfold State.mallocLoop
    rw [points, if_neg (small x (mem_cons_self ..)),
      if_neg (other x (mem_cons_self ..))]

theorem Ready.around (ready : Ready base s free taken) :
    ∃ w, Linked s.mem.next (s.freep :: w ++ [s.freep]) ∧ (∀ x ∈ w, x ≠ s.freep) ∧
      ∀ x, x ∈ free.map Prod.fst ↔ x ∈ w ++ [s.freep] := by
  obtain ⟨l, r, at_⟩ := append_of_mem ready.start
  refine ⟨r ++ l, ready.inv.ring.rotate ready.inv.head at_, ?_, ?_⟩
  · have nodup := ready.inv.layout.nodup
    rw [List.map_append, at_] at nodup
    have nodup := (List.nodup_append.mp nodup).1
    rintro x mem rfl
    have fresh := (List.nodup_cons.mp (List.perm_middle.nodup_iff.mp nodup)).1
    exact fresh (List.perm_append_comm.mem_iff.mp mem)
  · intro x
    rw [at_]
    simp only [List.mem_append, mem_cons, List.not_mem_nil, or_false]
    tauto

theorem Ready.loop_found (answers : List (Option Nat)) (ready : Ready base s free taken)
    (large : ∃ b ∈ free, n ≤ b.2) :
    ∃ bound out, out.1.chunks = s.chunks ∧ ∀ fuel, bound ≤ fuel →
      State.mallocLoop n fuel s s.freep (s.mem.next s.freep) answers = some out := by
  obtain ⟨w, linked, other, same⟩ := ready.around
  have large : ∃ x ∈ w ++ [s.freep], n ≤ s.mem.size x := by
    obtain ⟨b, node, enough⟩ := large
    rw [← ready.inv.sizes b (mem_append_left _ node)] at enough
    exact ⟨b.1, (same b.1).mp (List.mem_map_of_mem node), enough⟩
  obtain ⟨out, kept, run⟩ := scan_found answers linked other large
  exact ⟨w.length + 1, out, kept, fun fuel enough => run fuel enough⟩

/-- **The search of `malloc` ends**, also when it has to ask for memory, which it does once and only
if no free block is large enough. -/
theorem Ready.loop_ends (answers : List (Option Nat)) (positive : 0 < base)
    (ready : Ready base s free taken) (small : total s.chunks < 2 ^ 32)
    (fresh : ∀ p, answer = some p → s.brk ≤ p ∧ total s.chunks + max n 4096 < 2 ^ 32) :
    ∃ bound out, out.1.chunks = s.chunks ++
        (if ∃ b ∈ free, n ≤ b.2 then [] else (answer.map (·, max n 4096)).toList) ∧
      ∀ fuel, bound ≤ fuel →
        State.mallocLoop n fuel s s.freep (s.mem.next s.freep) (answer :: answers) = some out := by
  by_cases large : ∃ b ∈ free, n ≤ b.2
  · rw [if_pos large, List.append_nil]
    exact ready.loop_found _ large
  rw [if_neg large]
  obtain ⟨w, linked, other, same⟩ := ready.around
  have short : ∀ x ∈ w ++ [s.freep], ¬ n ≤ s.mem.size x := by
    intro x at_ enough
    obtain ⟨b, node, rfl⟩ := mem_map.mp ((same x).mpr at_)
    rw [ready.inv.sizes b (mem_append_left _ node)] at enough
    exact large ⟨b, node, enough⟩
  obtain ⟨prevp, skip⟩ := scan_none (answer :: answers) linked other
    (fun x at_ => short x (mem_append_left _ at_))
  obtain ⟨bound, s', p, chunks, grown, more⟩ := ready.morecore_ends small fresh
  -- One more round asks for memory, and the search goes on from there.
  have ask : ∀ fuel, bound ≤ fuel →
      State.mallocLoop n (fuel + 1 + w.length) s s.freep (s.mem.next s.freep)
        (answer :: answers) =
      if p = 0 then some (s', 0) else State.mallocLoop n fuel s' p (s'.mem.next p) answers := by
    intro fuel enough
    rw [skip]
    conv_lhs => unfold State.mallocLoop
    rw [if_neg (short s.freep (by simp)), if_pos rfl]
    dsimp only
    rw [more fuel enough]
  have rest : ∃ bound out, out.1.chunks = s'.chunks ∧ ∀ fuel, bound ≤ fuel →
      (if p = 0 then some (s', 0) else State.mallocLoop n fuel s' p (s'.mem.next p) answers) =
        some out := by
    rcases (ready.morecore (more bound le_rfl) grown).2 with
      ⟨rfl, -⟩ | ⟨rfl, free', ready', large⟩
    · exact ⟨0, (s', 0), rfl, fun _ _ => if_pos rfl⟩
    have ne : s'.freep ≠ 0 := by
      have := ready'.base_le
      omega
    obtain ⟨bound', out, kept, run⟩ := ready'.loop_found answers large
    exact ⟨bound', out, kept, fun fuel enough => (if_neg ne).trans (run fuel enough)⟩
  obtain ⟨bound', out, kept, run⟩ := rest
  refine ⟨bound + bound' + 1 + w.length, out, kept.trans chunks, ?_⟩
  intro fuel enough
  obtain ⟨k, rfl⟩ := Nat.exists_eq_add_of_le enough
  have split : bound + bound' + 1 + w.length + k = bound + bound' + k + 1 + w.length := by omega
  rw [split, ask _ (by omega)]
  exact run _ (by omega)

end Scan

end Calls

end Umalloc
