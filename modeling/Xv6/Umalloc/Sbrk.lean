import Xv6.Umalloc.Correct

/-!
# What `malloc` asks the kernel for

`morecore` multiplies its count of units, a `uint`, by `sizeof(Header)` and passes the product, of
64 bits, to `sbrk`, which takes an `int`. From `2 ^ 27` units on, the argument is not the size that
`morecore` puts into the header: it is negative at first, so that the process shrinks, and 0 or 16
for the largest requests.
-/

namespace Umalloc

open Tiling

/-- `nu * sizeof(Header)` as the argument of `sbrk`. -/
def sbrkArg (nu : Nat) : Int :=
  Int.bmod (16 * nu) (2 ^ 32)

/-- The size of a process of `sz` bytes after `growproc(n)`, if there is the memory for it. To
`uvmdealloc` a negative size is a large one, which it refuses. -/
def growproc (sz : Nat) (n : Int) : Nat :=
  if 0 ≤ sz + n then (sz + n).toNat else sz

/-- What is to hold of a call `malloc(nbytes)` that leads from `s` to `s'` and returns `ap`. -/
structure Covered (s s' : State) (ap nbytes : Nat) : Prop where
  /-- Where `sbrk` succeeds, it was asked for the size in the header, and the process is not
  smaller. -/
  asked : ∀ chunk ∈ s'.chunks.drop s.chunks.length,
    sbrkArg chunk.2 = 16 * chunk.2 ∧ ∀ sz, sz ≤ growproc sz (sbrkArg chunk.2)
  inside : ap = 0 ∨ ∀ x, ap ≤ x → x < ap + nbytes →
    ∃ chunk ∈ s'.chunks, chunk.1 ≤ x ∧ x < chunk.1 + 16 * chunk.2

/-- Some block of the free list has `n` units. -/
def State.HasBlock (s : State) (n : Nat) : Prop :=
  ∃ fuel, (Linked.search s.mem.next (fun a => n ≤ s.mem.size a) fuel s.freep).isSome

variable {base n nbytes : Nat} {s s' : State} {free taken : List (Nat × Nat)}

theorem sbrkArg_eq_iff : sbrkArg n = 16 * n ↔ 16 * n < 2 ^ 31 := by
  unfold sbrkArg
  constructor
  · intro same
    have below := Int.bmod_lt (x := (16 * n : Int)) (m := 2 ^ 32) (by decide)
    omega
  · intro fits
    exact Int.bmod_eq_of_le (by omega) (by omega)

theorem Ready.hasBlock_iff (ready : Ready base s free taken) :
    s.HasBlock n ↔ ∃ b ∈ free, n ≤ b.2 := by
  have inv := ready.inv
  constructor
  · rintro ⟨fuel, found⟩
    obtain ⟨a, found⟩ := Option.isSome_iff_exists.mp found
    obtain ⟨at_, large⟩ := Linked.search_some
      (P := (· ∈ free.map Prod.fst)) (fun a => inv.ring.closed inv.head) ready.start found
    obtain ⟨b, node, rfl⟩ := List.mem_map.mp at_
    have large := of_decide_eq_true large
    rw [inv.sizes b (List.mem_append_left _ node)] at large
    exact ⟨b, node, large⟩
  · rintro ⟨b, node, large⟩
    rw [← inv.sizes b (List.mem_append_left _ node)] at large
    have stops : ∃ a ∈ free.map Prod.fst, (fun a => decide (n ≤ s.mem.size a)) a :=
      ⟨b.1, List.mem_map_of_mem node, decide_eq_true large⟩
    obtain ⟨a, found⟩ := Linked.search_ring inv.ring inv.head ready.start stops
    exact ⟨_, Option.isSome_iff_exists.mpr ⟨a, found _ le_rfl⟩⟩

theorem Ready.inside (ready : Ready base s free ((bp, nunits nbytes) :: taken)) (x : Nat)
    (low : bp + 16 ≤ x) (high : x < bp + 16 + nbytes) :
    ∃ chunk ∈ s.chunks, chunk.1 ≤ x ∧ x < chunk.1 + 16 * chunk.2 := by
  have room := bytes_le nbytes
  refine ready.inv.layout.tiled.inside (b := (bp, nunits nbytes)) (by simp) ?_ ?_
  · dsimp only
    omega
  · dsimp only
    omega

/-- **When `malloc` gets what it returns.** In a state that a program has reached by requests of
less than `2 ^ 31` bytes with their headers, and for any request: `malloc` ends, and the call is
covered exactly when its size is an `int` too, or no memory is needed, or there is none. -/
theorem malloc_covered_iff {answer : Option Nat} (answers : List (Option Nat))
    (reach : (heap base).Reachable s) (room : total s.chunks + max (nunits nbytes) 4096 < 2 ^ 32)
    (above : ∀ p, answer = some p → s.brk ≤ p) :
    (∃ bound s' ap, (∀ fuel, bound ≤ fuel →
        s.malloc base fuel nbytes (answer :: answers) = some (s', ap)) ∧ Covered s s' ap nbytes) ↔
      answer = none ∨ 16 * nunits nbytes < 2 ^ 31 ∨
        (s.start base).HasBlock (nunits nbytes) := by
  have healthy := Healthy.reachable reach (by omega)
  obtain ⟨free, ready⟩ := healthy.start
  obtain ⟨kept, brk, -⟩ := start_frame base s
  rw [← kept] at room
  rw [ready.hasBlock_iff]
  obtain ⟨bound, ⟨s', ap⟩, chunks, run⟩ := ready.loop_ends answers healthy.pos (by omega)
    fun p given => ⟨brk ▸ above p given, room⟩
  have small : total s'.chunks < 2 ^ 32 := by
    rw [chunks]
    split
    · rw [List.append_nil]
      omega
    · cases answer with
      | none =>
        rw [Option.map_none, Option.toList_none, List.append_nil]
        omega
      | some p =>
        rw [Option.map_some, Option.toList_some, total_concat]
        exact room
  have inside : ap = 0 ∨ ∀ x, ap ≤ x → x < ap + nbytes →
      ∃ chunk ∈ s'.chunks, chunk.1 ≤ x ∧ x < chunk.1 + 16 * chunk.2 := by
    obtain ⟨-, free', ⟨rfl, -⟩ | ⟨bp, rfl, ready⟩⟩ :=
      ready.mallocLoop nunits_pos ready.start (run bound le_rfl) small
    · exact .inl rfl
    · exact .inr ready.inside
  have asked : s'.chunks.drop s.chunks.length =
      if ∃ b ∈ free, nunits nbytes ≤ b.2 then []
        else (answer.map (·, max (nunits nbytes) 4096)).toList := by
    rw [chunks, kept, List.drop_left]
  constructor
  · rintro ⟨bound', s'', ap', run', covered⟩
    have same := (run' _ (Nat.le_max_right bound bound')).symm.trans
      (run _ (Nat.le_max_left bound bound'))
    obtain ⟨rfl, -⟩ := Prod.mk.inj (Option.some.inj same)
    by_contra neither
    obtain ⟨p, rfl⟩ := Option.ne_none_iff_exists'.mp fun none => neither (.inl none)
    have each := covered.asked
    rw [asked, if_neg fun large => neither (.inr (.inr large))] at each
    obtain ⟨equal, -⟩ := each (p, max (nunits nbytes) 4096) (by simp)
    have fits := sbrkArg_eq_iff.mp equal
    exact neither (.inr (.inl (by omega)))
  · intro good
    refine ⟨bound, s', ap, run, ⟨?_, inside⟩⟩
    rw [asked]
    intro chunk new
    have fits : 16 * chunk.2 < 2 ^ 31 := by
      split at new
      · cases new
      · next short =>
        rcases good with rfl | fits | large
        · cases new
        · obtain ⟨p, -, rfl⟩ := Option.map_eq_some_iff.mp (Option.mem_toList.mp new)
          dsimp only
          omega
        · exact absurd large short
    have equal := sbrkArg_eq_iff.mpr fits
    refine ⟨equal, fun sz => ?_⟩
    rw [equal]
    unfold growproc
    split
    · omega
    · exact le_rfl

/-- A request of `2 ^ 30` bytes of a program that holds two blocks. -/
theorem malloc_covered_large : ∃ s, (heap 16).Reachable s ∧
    ∃ bound s' ap, (∀ fuel, bound ≤ fuel →
      s.malloc 16 fuel 1073741824 [some 165584] = some (s', ap)) ∧ Covered s s' ap 1073741824 := by
  obtain ⟨s, reach, brk, chunks⟩ : ∃ s, (heap 16).Reachable s ∧ s.brk = 165584 ∧
      s.chunks = [(32, 4096), (65568, 6251)] :=
    Lts.exists_of_run fresh_starts fewCalls (by decide +kernel)
  refine ⟨s, reach, (malloc_covered_iff [] reach ?_ ?_).mpr (.inr (.inl (by decide)))⟩
  · rw [chunks]
    decide
  · intro p given
    obtain rfl := Option.some.inj given
    exact Nat.le_of_eq brk

/-- For the largest request `sbrk` is asked for 16 bytes, and `malloc` returns what lies after them.
For one of 4096 bytes less the process loses 4080 bytes. -/
theorem malloc_returns_more : ∃ s s' ap p, (heap 16).Reachable s ∧
    s.malloc 16 3 4294967295 [some p] = some (s', ap) ∧ ap = p + 16 ∧
    s'.chunks = [(p, 268435457)] ∧ sbrkArg 268435457 = 16 ∧ ¬ Covered s s' ap 4294967295 ∧
    sbrkArg (nunits 4294963200) = -4080 ∧ growproc 65536 (sbrkArg (nunits 4294963200)) = 61456 := by
  obtain ⟨s', run, chunks⟩ : ∃ s', fresh.malloc 16 3 4294967295 [some 32] = some (s', 48) ∧
      s'.chunks = [(32, 268435457)] := ⟨_, rfl, rfl⟩
  refine ⟨fresh, s', 48, 32, .init fresh_starts, run, rfl, chunks, by decide, ?_, by decide,
    by decide⟩
  intro covered
  have each := covered.asked
  rw [chunks] at each
  exact absurd (each (32, 268435457) (by simp [fresh])).1 (by decide)

end Umalloc
