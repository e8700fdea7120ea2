import Mathlib.Algebra.GroupWithZero.Nat
import Mathlib.Algebra.Order.BigOperators.Group.List
import Mathlib.Algebra.Order.Group.Nat

/-!
# Memory cut into blocks

Cells of a fixed width `w`. A block is its address and its number of cells, and `Tiled w blocks
chunks` says that the blocks cut up the memory of the chunks: every cell of a chunk is a cell of
exactly one block, and no two cells overlap. Adjacent blocks may be joined and a block split, and
a new chunk past the old ones is a block of its own.
-/

namespace Tiling

variable {w : Nat} {b c : Nat × Nat} {blocks blocks' l r chunks : List (Nat × Nat)}

/-- The addresses of a block's cells. -/
def cells (w : Nat) (block : Nat × Nat) : List Nat :=
  List.range' block.1 block.2 w

/-- The cells at `a` and `b` do not overlap. -/
def Apart (w a b : Nat) : Prop :=
  a + w ≤ b ∨ b + w ≤ a

/-- The blocks do not overlap. -/
def Separate (w : Nat) (b c : Nat × Nat) : Prop :=
  b.1 + w * b.2 ≤ c.1 ∨ c.1 + w * c.2 ≤ b.1

/-- The blocks are exactly the memory of the chunks, each cell once. -/
structure Tiled (w : Nat) (blocks chunks : List (Nat × Nat)) : Prop where
  perm : (blocks.flatMap (cells w)).Perm (chunks.flatMap (cells w))
  apart : (chunks.flatMap (cells w)).Pairwise (Apart w)

/-- The number of cells of some blocks. -/
def total (blocks : List (Nat × Nat)) : Nat :=
  (blocks.map Prod.snd).sum

theorem total_concat : total (blocks ++ [b]) = total blocks + b.2 := by
  simp only [total, List.map_append, List.map_cons, List.map_nil, List.sum_append, List.sum_cons,
    List.sum_nil, Nat.add_zero]

theorem Apart.symm {a b : Nat} (apart : Apart w a b) : Apart w b a :=
  Or.symm apart

theorem Separate.symm (separate : Separate w b c) : Separate w c b :=
  Or.symm separate

instance : Std.Symm (Separate w) :=
  ⟨fun _ _ => Separate.symm⟩

theorem mem_cells : x ∈ cells w b ↔ ∃ i < b.2, x = b.1 + w * i :=
  List.mem_range'

theorem cells_append (a m n : Nat) :
    cells w (a, m) ++ cells w (a + w * m, n) = cells w (a, m + n) :=
  List.range'_append

theorem length_flatMap_cells : (blocks.flatMap (cells w)).length = total blocks := by
  simp only [List.length_flatMap, cells, List.length_range', total]

theorem cells_apart (a n : Nat) : (cells w (a, n)).Pairwise (Apart w) := by
  induction n generalizing a with
  | zero => exact .nil
  | succ n ih =>
    refine List.pairwise_cons.mpr ⟨?_, ih (a + w)⟩
    intro x mem
    obtain ⟨i, -, rfl⟩ := List.mem_range'.mp mem
    exact .inl (Nat.le_add_right ..)

theorem separate_of_cells (apart : ∀ x ∈ cells w b, ∀ y ∈ cells w c, Apart w x y)
    (wide : 0 < w) (b_pos : 0 < b.2) (c_pos : 0 < c.2) : Separate w b c := by
  -- The cell of one block that holds the first byte of the other overlaps its first cell.
  have clash : ∀ b c : Nat × Nat, (∀ x ∈ cells w b, ∀ y ∈ cells w c, Apart w x y) → 0 < c.2 →
      b.1 ≤ c.1 → b.1 + w * b.2 ≤ c.1 := by
    intro b c apart c_pos le
    by_contra reaches
    have split := Nat.div_add_mod (c.1 - b.1) w
    have inside : (c.1 - b.1) / w < b.2 := Nat.div_lt_of_lt_mul (by omega)
    have short := Nat.mod_lt (c.1 - b.1) wide
    have first : c.1 ∈ cells w c := mem_cells.mpr ⟨0, c_pos, rfl⟩
    rcases apart _ (mem_cells.mpr ⟨_, inside, rfl⟩) _ first with below | above
    · omega
    · omega
  rcases Nat.le_total b.1 c.1 with le | le
  · exact .inl (clash b c apart c_pos le)
  · exact .inr (clash c b (fun x mem y mem' => (apart y mem' x mem).symm) b_pos le)

/-! ## Cutting and joining -/

theorem Tiled.of_perm (tiled : Tiled w blocks chunks) (same : blocks'.Perm blocks) :
    Tiled w blocks' chunks :=
  ⟨(same.flatMap_right _).trans tiled.perm, tiled.apart⟩

theorem tiled_join :
    Tiled w ((a, m) :: (a + w * m, n) :: rest) chunks ↔ Tiled w ((a, m + n) :: rest) chunks := by
  have same : ((a, m) :: (a + w * m, n) :: rest).flatMap (cells w) =
      ((a, m + n) :: rest).flatMap (cells w) := by
    simp only [List.flatMap_cons, ← cells_append, List.append_assoc]
  constructor
  · intro tiled
    exact ⟨same ▸ tiled.perm, tiled.apart⟩
  · intro tiled
    exact ⟨same ▸ tiled.perm, tiled.apart⟩

theorem Tiled.grow (tiled : Tiled w blocks chunks)
    (past : ∀ x ∈ chunks.flatMap (cells w), x + w ≤ p) :
    Tiled w ((p, n) :: blocks) (chunks ++ [(p, n)]) := by
  have cells_new : (chunks ++ [(p, n)]).flatMap (cells w) =
      chunks.flatMap (cells w) ++ cells w (p, n) := by
    rw [List.flatMap_append, List.flatMap_singleton]
  refine ⟨?_, ?_⟩
  · rw [cells_new, List.flatMap_cons]
    exact (List.perm_append_comm).trans (tiled.perm.append_right _)
  rw [cells_new, List.pairwise_append]
  refine ⟨tiled.apart, cells_apart p n, ?_⟩
  intro x mem y mem'
  obtain ⟨i, -, rfl⟩ := mem_cells.mp mem'
  exact .inl (Nat.le_trans (past x mem) (Nat.le_add_right ..))

theorem Tiled.first_mem (tiled : Tiled w blocks chunks) (mem : b ∈ blocks) (pos : 0 < b.2) :
    b.1 ∈ chunks.flatMap (cells w) :=
  tiled.perm.mem_iff.mp (List.mem_flatMap.mpr ⟨b, mem, mem_cells.mpr ⟨0, pos, rfl⟩⟩)

/-! ## Blocks do not overlap -/

theorem Tiled.pairwise (tiled : Tiled w blocks chunks) (wide : 0 < w) :
    blocks.Pairwise fun b c => 0 < b.2 → 0 < c.2 → Separate w b c := by
  have apart : (blocks.flatMap (cells w)).Pairwise (Apart w) :=
    tiled.perm.symm.pairwise tiled.apart Apart.symm
  refine (List.pairwise_flatMap.mp apart).2.imp ?_
  intro b c apart b_pos c_pos
  exact separate_of_cells apart wide b_pos c_pos

/-! ## Sizes -/

theorem Tiled.total_eq (tiled : Tiled w blocks chunks) : total blocks = total chunks := by
  rw [← length_flatMap_cells (w := w), tiled.perm.length_eq, length_flatMap_cells]

theorem Tiled.size_le (tiled : Tiled w blocks chunks) (mem : b ∈ blocks) : b.2 ≤ total chunks := by
  rw [← tiled.total_eq]
  exact List.le_sum_of_mem (List.mem_map_of_mem mem)

theorem Tiled.inside (tiled : Tiled w blocks chunks) (mem : b ∈ blocks) (low : b.1 ≤ x)
    (high : x < b.1 + w * b.2) : ∃ chunk ∈ chunks, chunk.1 ≤ x ∧ x < chunk.1 + w * chunk.2 := by
  have wide : 0 < w := by
    by_contra zero
    obtain rfl : w = 0 := by omega
    omega
  have split := Nat.div_add_mod (x - b.1) w
  have index : (x - b.1) / w < b.2 := Nat.div_lt_of_lt_mul (by omega)
  have short := Nat.mod_lt (x - b.1) wide
  have cell : b.1 + w * ((x - b.1) / w) ∈ chunks.flatMap (cells w) :=
    tiled.perm.mem_iff.mp (List.mem_flatMap.mpr ⟨b, mem, mem_cells.mpr ⟨_, index, rfl⟩⟩)
  obtain ⟨chunk, mem_chunk, mem_cell⟩ := List.mem_flatMap.mp cell
  obtain ⟨i, below, at_⟩ := mem_cells.mp mem_cell
  have room : w * i + w ≤ w * chunk.2 := by
    exact Nat.mul_le_mul_left w below
  exact ⟨chunk, mem_chunk, by omega, by omega⟩

end Tiling
