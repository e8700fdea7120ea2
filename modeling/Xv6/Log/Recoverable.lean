import Xv6.Log.Basic

/-!
# The disk that recovery yields

`Recoverable` is a property of the disk alone: if the blocks listed in the
on-disk header are copied home, the disk outside the log is `goal`. Every single
write of `commit` and `recover_from_log` keeps it, and the header write of
`commit` is the only one that changes `goal`.
-/

namespace Xv6.Log

open Function

/-- The writes that `install_trans` makes for the header `lh`. -/
def entries (start : Nat) (disk : Nat → Block) (lh : List Nat) : List (Nat × Block) :=
  lh.mapIdx fun i b => (b, disk (start + i + 1))

/-- Header entries `install_trans` can copy home. -/
structure Installable (start : Nat) (lh : List Nat) : Prop where
  room : lh.length ≤ LOGBLOCKS
  nodup : lh.Nodup
  outside : ∀ b ∈ lh, Outside start b
  small : ∀ b ∈ lh, b < 2 ^ 32

/-- Installing the on-disk header's blocks gives `goal` outside the log. -/
structure Recoverable (start : Nat) (disk goal : Nat → Block) : Prop where
  head : Installable start (getHead (disk start))
  replay : ∀ b, Outside start b →
    Redo.writes (entries start disk (getHead (disk start))) disk b = goal b

variable {start : Nat} {disk disk' goal : Nat → Block} {lh : List Nat}

@[simp] theorem entries_fst : (entries start disk lh).map Prod.fst = lh := by
  refine List.ext_getElem (by simp [entries]) fun i _ _ => ?_
  simp [entries]

theorem mem_entries :
    w ∈ entries start disk lh ↔ ∃ i, ∃ h : i < lh.length, w = (lh[i], disk (start + i + 1)) := by
  simp [entries, List.mem_mapIdx, eq_comm]

theorem not_outside_slot (h : tail < LOGBLOCKS) : ¬ Outside start (start + tail + 1) := by
  unfold Outside
  omega

theorem not_outside_start : ¬ Outside start start := by
  unfold Outside
  omega

theorem entries_congr (room : lh.length ≤ LOGBLOCKS)
    (same : ∀ tail, tail < LOGBLOCKS → disk' (start + tail + 1) = disk (start + tail + 1)) :
    entries start disk' lh = entries start disk lh := by
  refine List.ext_getElem (by simp [entries]) fun i h _ => ?_
  have inRange : i < lh.length := by simpa [entries] using h
  simp [entries, same i (by omega)]

theorem Recoverable.install (rec : Recoverable start disk goal) (data : Block)
    (listed : b ∈ getHead (disk start)) : Recoverable start (update disk b data) goal := by
  have home := rec.head.outside b listed
  have other : ∀ b', ¬ Outside start b' → b' ≠ b := by
    rintro b' inside rfl
    exact inside home
  have head : update disk b data start = disk start :=
    update_of_ne (other start not_outside_start) _ _
  refine ⟨head ▸ rec.head, fun b' out => ?_⟩
  have same : entries start (update disk b data) (getHead (disk start)) =
      entries start disk (getHead (disk start)) :=
    entries_congr rec.head.room fun tail h =>
      update_of_ne (other _ (not_outside_slot h)) _ _
  rw [head, same, Redo.writes_update (by simpa using listed)]
  exact rec.replay b' out

theorem Recoverable.clean (rec : Recoverable start disk goal) (empty : getHead (disk start) = [])
    (out : Outside start b) : disk b = goal b := by
  have replay := rec.replay b out
  rwa [empty] at replay

theorem Recoverable.of_clean (empty : getHead (disk start) = [])
    (same : ∀ b, Outside start b → disk b = goal b) : Recoverable start disk goal where
  head := by
    rw [empty]
    exact ⟨Nat.zero_le _, List.nodup_nil, by simp, by simp⟩
  replay b out := by
    rw [empty]
    exact same b out

theorem Recoverable.installed (rec : Recoverable start disk goal)
    (home : ∀ i, ∀ h : i < (getHead (disk start)).length,
      disk (getHead (disk start))[i] = disk (start + i + 1))
    (out : Outside start b) : disk b = goal b := by
  rw [← rec.replay b out, Redo.writes_eq_self]
  intro w mem
  obtain ⟨i, h, rfl⟩ := mem_entries.mp mem
  exact home i h

theorem Recoverable.log (rec : Recoverable start disk goal)
    (empty : getHead (disk start) = []) (head : disk' start = disk start)
    (same : ∀ b, Outside start b → disk' b = disk b) : Recoverable start disk' goal :=
  .of_clean (head ▸ empty) fun b out => (same b out).trans (rec.clean empty out)

/-- **The commit point**: with the log blocks written, the header write moves the
disk on by one transaction. -/
theorem Recoverable.commit (rec : Recoverable start disk goal) (empty : getHead (disk start) = [])
    (batch : Installable start lh) (head : getHead (disk' start) = lh)
    (same : ∀ b, b ≠ start → disk' b = disk b)
    (copied : ∀ i, ∀ h : i < lh.length, disk (start + i + 1) = goal' lh[i])
    (rest : ∀ b, b ∉ lh → goal' b = goal b) : Recoverable start disk' goal' where
  head := head ▸ batch
  replay b out := by
    rw [head]
    by_cases listed : b ∈ lh
    · obtain ⟨i, h, rfl⟩ := List.getElem_of_mem listed
      have mem : (lh[i], disk' (start + i + 1)) ∈ entries start disk' lh :=
        mem_entries.mpr ⟨i, h, rfl⟩
      rw [Redo.writes_of_mem (by simpa using batch.nodup) mem, same _ (by omega)]
      exact copied i h
    · have notStart : b ≠ start := by
        rintro rfl
        exact not_outside_start out
      rw [Redo.writes_of_not_mem (by simpa using listed), same b notStart, rest b listed]
      exact rec.clean empty out

end Xv6.Log
