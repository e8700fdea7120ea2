import Xv6.Fs.Content
import Xv6.Fs.System

/-!
# Inodes are byte arrays

`readi` and `writei` as operations on the list of the bytes of an inode, for all offsets and
lengths. Both are 32-bit numbers, whose sum may wrap around.
-/

namespace Xv6.Fs

open Log (BSIZE Block LOGBLOCKS)
open Ownership (Owned)

/-- The range of a read or a write starts past the end or wraps around. -/
def BadRange (v : Dinode) (off n : UInt32) : Prop := v.size < off ∨ off + n < off
  deriving Decidable

/-- The bytes `[off, off + t)` of a list are replaced by the first `t` of the source. -/
def replaced (bytes : List UInt8) (off t : Nat) (src : Nat → Option UInt8) : List UInt8 :=
  bytes.take off ++ (List.range t).map (fun j => (src j).getD 0) ++ bytes.drop (off + t)

section ByteArray

variable {s s' : State} {ip : Ip} {i t : Nat} {off n : UInt32}

theorem wraps_iff : off + n < off ↔ 2 ^ 32 ≤ off.toNat + n.toNat := by
  rw [UInt32.lt_iff_toNat_lt, UInt32.toNat_add]
  have := n.toNat_lt
  omega

theorem badRange_iff :
    BadRange v off n ↔ v.size.toNat < off.toNat ∨ 2 ^ 32 ≤ off.toNat + n.toNat := by
  unfold BadRange
  rw [UInt32.lt_iff_toNat_lt, wraps_iff]

theorem replaced_range {size off : Nat} (start : off ≤ size)
    (bytes : ∀ p, g p = if off ≤ p ∧ p < off + t then (src (p - off)).getD 0 else f p) :
    (List.range (max size (off + t))).map g = replaced ((List.range size).map f) off t src := by
  have front : (((List.range size).map f).take off).length = off := by simp [start]
  have middle : (((List.range size).map f).take off ++
      (List.range t).map fun j => (src j).getD 0).length = off + t := by simp [start]
  unfold replaced
  refine List.ext_getElem ?_ fun p inside _ => ?_
  · rw [List.length_append, middle]
    simp only [List.length_map, List.length_range, List.length_drop]
    omega
  rw [List.getElem_map, List.getElem_range, bytes]
  by_cases low : p < off
  · rw [if_neg (by omega), List.getElem_append_left (by omega), List.getElem_append_left (by omega)]
    simp
  by_cases high : p < off + t
  · rw [if_pos (by omega), List.getElem_append_left (by omega),
      List.getElem_append_right (by omega)]
    simp [front]
  · rw [if_neg (by omega), List.getElem_append_right (by omega)]
    simp only [middle, List.getElem_drop, List.getElem_map, List.getElem_range]
    congr 1
    omega

theorem Frame.content (frame : Frame ip s s') (small : i < s.sb.ninodes)
    (other : i ≠ (s.itable ip).inum) (allocated : (s.node i).type ≠ 0) :
    s'.node i = s.node i ∧ (s.node i).content s'.disk = (s.node i).content s.disk := by
  have node : s'.node i = s.node i :=
    node_other frame.sb frame.others frame.entry (frame.dinode i small other) other
  have number (x : BlockSlot) : (s.node i).number s'.disk x = (s.node i).number s.disk x := by
    refine Dinode.number_congr (fun nonzero => ?_) x
    refine (frame.foreign i other indirectBlock).2 _ (own_eq_some.mpr ⟨small, allocated, ?_, rfl⟩)
    exact fun zero => nonzero (UInt32.toNat_inj.mp zero)
  have data (x : BlockSlot) : (s.node i).data s'.disk x = (s.node i).data s.disk x := by
    unfold Dinode.data
    rw [number x]
    split
    · rfl
    · next nonzero =>
      exact (frame.foreign i other x).2 _ (own_eq_some.mpr ⟨small, allocated, nonzero, rfl⟩)
  refine ⟨node, ?_⟩
  refine List.map_congr_left fun p _ => ?_
  unfold Dinode.byteAt
  split
  · next x _ => rw [data x]
  · rfl

theorem Written.content {off : Nat} (written : Written ip off src t s s')
    (start : off ≤ (s.itable ip).size.toNat) (fits : off + t < 2 ^ 32) :
    (s'.itable ip).toDinode.content s'.disk =
      replaced ((s.itable ip).toDinode.content s.disk) off t src := by
  have old := (s.itable ip).size.toNat_lt
  have size : (s'.itable ip).size.toNat = max (s.itable ip).size.toNat (off + t) := by
    have copy := congrArg Dinode.size written.copy
    rw [copy, UInt32.toNat_ofNat', Nat.mod_eq_of_lt (by omega)]
  unfold Dinode.content
  rw [size]
  exact replaced_range start written.bytes

theorem run_of_ends {α : Type} {p : FsM α} {Q : α → State → Prop}
    (ends : p.Ends (fun _ => False) Q s) : ∃ a s', p.run s = some (.ok (a, s')) ∧ Q a s' := by
  have run := ends.run
  match result : p.run s with
  | none | some (.error e) =>
    rw [result] at run
    exact run.elim
  | some (.ok (a, s')) =>
    rw [result] at run
    exact ⟨a, s', rfl, run⟩

/-- `readi` and `writei` refine a byte array. The state has every block once, and it has blocks
for all the bytes of `*ip`; a write needs room in the log, two blocks for each block that it
is in and three more. -/
theorem inode_is_byte_array (sound : Sound s) (loaded : Loaded s ip)
    (full : ∀ i, i < s.sb.ninodes → (s.node i).type ≠ 0 → (s.node i).Full s.disk)
    (off n : UInt32) :
    (∀ dst, (∀ j < n.toNat, dst j = true) →
      (readi ip dst off.toNat n.toNat).run s = some (.ok (some
        (if BadRange (s.itable ip).toDinode off n then []
          else (((s.itable ip).toDinode.content s.disk).drop off.toNat).take n.toNat), s))) ∧
    ∀ src, (∀ j < n.toNat, (src j).isSome) →
      if BadRange (s.itable ip).toDinode off n ∨ MAXFILE * BSIZE < off.toNat + n.toNat then
        (writei ip src off.toNat n.toNat).run s = some (.ok (none, s))
      else 0 < s.log.outstanding →
        s.log.block.length + 2 * spans off.toNat n.toNat + 3 ≤ LOGBLOCKS →
        ∃ t s', (writei ip src off.toNat n.toNat).run s = some (.ok (some t, s')) ∧
          t ≤ n.toNat ∧ (t < n.toNat → s'.freeBlock = none) ∧
          (s'.itable ip).toDinode.content s'.disk =
            replaced ((s.itable ip).toDinode.content s.disk) off.toNat t src ∧
          (s'.itable ip).size.toNat = max (s.itable ip).size.toNat (off.toNat + t) ∧
          ∀ i, i < s.sb.ninodes → i ≠ (s.itable ip).inum → (s.node i).type ≠ 0 →
            s'.node i = s.node i ∧ (s'.node i).content s'.disk = (s.node i).content s.disk := by
  have here : (s.itable ip).toDinode.Full s.disk := by
    have node := sound.unique.node_loaded loaded
    rw [← node]
    refine full _ (sound.inum_lt loaded.used) ?_
    rw [node]
    exact loaded.type
  refine ⟨fun dst open_ => ?_, fun src all => ?_⟩
  · split
    · next bad =>
      rw [badRange_iff] at bad
      have short : (readi ip dst off.toNat n.toNat).Ends (fun _ => False)
          (fun r s' => r = some [] ∧ s' = s) s := by
        refine .after_read ?_
        rw [if_pos (by omega)]
        exact ⟨rfl, rfl⟩
      obtain ⟨r, s', run, rfl, rfl⟩ := run_of_ends short
      exact run
    · next good =>
      rw [badRange_iff] at good
      have start : off.toNat ≤ (s.itable ip).size.toNat := by omega
      have small : off.toNat + n.toNat < 2 ^ 32 := by omega
      have ends := readi_ends (E := fun _ => False) here
        (fun j below => open_ j (Nat.lt_of_lt_of_le below (Nat.min_le_left _ _))) start small
      obtain ⟨r, s', run, rfl, rfl⟩ := run_of_ends ends
      exact run
  · split
    · next bad =>
      rw [badRange_iff] at bad
      have refused : (writei ip src off.toNat n.toNat).Ends (fun _ => False)
          (fun r s' => r = none ∧ s' = s) s := by
        refine .after_read ?_
        split
        · exact ⟨rfl, rfl⟩
        · rw [if_pos (by omega)]
          exact ⟨rfl, rfl⟩
      obtain ⟨r, s', run, rfl, rfl⟩ := run_of_ends refused
      exact run
    · next good =>
      rw [badRange_iff] at good
      intro inside room
      have weight : s.weight ip ≤ s.log.block.length + 2 := by
        unfold State.weight
        split <;> omega
      have never : ∀ e, LogFails (s.weight ip + 2 * spans off.toNat n.toNat) s e → False := by
        rintro e (⟨-, full⟩ | ⟨-, outside⟩) <;> omega
      have start : off.toNat ≤ (s.itable ip).size.toNat := by omega
      have small : off.toNat + n.toNat ≤ MAXFILE * BSIZE := by omega
      have ends := (writei_ends sound loaded all start small).mono never fun _ _ h => h
      obtain ⟨r, s', run, t, rfl, le, out, written⟩ := run_of_ends ends
      have fits : off.toNat + t < 2 ^ 32 := by omega
      refine ⟨t, s', run, le, fun less => ?_, written.content start fits, ?_, ?_⟩
      · cases found : s'.freeBlock with
        | none => rfl
        | some b =>
          have free := freeBlock_some found
          rw [out less] at free
          exact absurd free (Multiset.notMem_zero b)
      · have old := (s.itable ip).size.toNat_lt
        have copy := congrArg Dinode.size written.copy
        rw [copy, UInt32.toNat_ofNat', Nat.mod_eq_of_lt (by omega)]
      · intro i small other allocated
        obtain ⟨node, content⟩ := written.toFrame.content small other allocated
        rw [node]
        exact ⟨rfl, content⟩

end ByteArray

/-! ## Two states

The blocks of the second are owned once too, but its bitmap has the block with the inodes as
free. -/

def rootIp : Ip := ⟨0, Nat.succ_pos _⟩

/-- The system with the root directory of a disk read, in a transaction. -/
def rootRead (disk : Disk) : State where
  sb := smallSb
  disk := disk
  log := { outstanding := 1 }
  itable e := if e.val = 0 then
    { disk.dinode smallSb ROOTINO with inum := ROOTINO, ref := 1, valid := true } else {}

theorem rootRead_unique : (rootRead disk).Unique := by
  have first {e : Ip} (used : 0 < ((rootRead disk).itable e).ref) : e.val = 0 := by
    by_contra other
    simp [rootRead, other] at used
  intro e e' used used' _
  exact Fin.ext ((first used).trans (first used').symm)

/-- Inodes without indirect blocks have no holes if their direct blocks are there. -/
theorem Dinode.full_direct {v : Dinode} (small : v.size.toNat ≤ NDIRECT * BSIZE)
    (there : ∀ k : AddrSlot, k.val * BSIZE < v.size.toNat → v.addrs k ≠ 0) : v.Full disk := by
  intro bn below
  have direct : bn < NDIRECT := Nat.lt_of_mul_lt_mul_right (Nat.lt_of_lt_of_le below small)
  refine ⟨.addr ⟨bn, Nat.lt_succ_of_lt direct⟩, dif_pos direct, fun zero => ?_⟩
  exact there ⟨bn, Nat.lt_succ_of_lt direct⟩ below (UInt32.toNat_inj.mp zero)

theorem rootRead_inum (used : 0 < ((rootRead disk).itable e).ref) :
    ((rootRead disk).itable e).inum = ROOTINO := by
  by_cases first : e.val = 0
  · simp [rootRead, first]
  · simp [rootRead, first] at used

theorem inode_is_byte_array_root :
    (readi rootIp (fun _ => true) 16 4).run (rootRead smallDisk) =
      some (.ok (some [1, 0, 0x2e, 0x2e], rootRead smallDisk)) ∧
    ∃ t s', (writei rootIp (fun _ => some 7) 48 2000).run (rootRead smallDisk) =
      some (.ok (some t, s')) ∧
      (s'.itable rootIp).toDinode.content s'.disk =
        replaced (((rootRead smallDisk).itable rootIp).toDinode.content smallDisk) 48 t
          fun _ => some 7 := by
  have direct : (rootRead smallDisk).direct =
      [((1, .addr 0), 4), ((2, .addr 0), 5), ((3, .addr 0), 6)] := by
    decide +kernel
  have sound : Sound (rootRead smallDisk) := by
    refine sound_of_direct ⟨by decide, by decide, by decide⟩ rootRead_unique (fun used => ?_)
      (by decide +kernel) (by rw [direct]; decide) (by rw [direct]; decide +kernel)
      (by decide +kernel)
    rw [rootRead_inum used]
    decide
  have loaded : Loaded (rootRead smallDisk) rootIp := ⟨by decide, rfl, by decide +kernel⟩
  have full : ∀ i < smallSb.ninodes, ((rootRead smallDisk).node i).size.toNat ≤ NDIRECT * BSIZE ∧
      ∀ k : AddrSlot, k.val * BSIZE < ((rootRead smallDisk).node i).size.toNat →
        ((rootRead smallDisk).node i).addrs k ≠ 0 := by
    decide +kernel
  have byteArray := inode_is_byte_array sound loaded
    fun i small _ => Dinode.full_direct (full i small).1 (full i small).2
  constructor
  · rw [show 16 = (16 : UInt32).toNat from rfl, show 4 = (4 : UInt32).toNat from rfl,
      (byteArray 16 4).1 _ fun _ _ => rfl]
    have bytes : (if BadRange ((rootRead smallDisk).itable rootIp).toDinode 16 4 then [] else
        ((((rootRead smallDisk).itable rootIp).toDinode.content (rootRead smallDisk).disk).drop
          (16 : UInt32).toNat).take (4 : UInt32).toNat) = [1, 0, 0x2e, 0x2e] := by
      decide +kernel
    rw [bytes]
  · have write := (byteArray 48 2000).2 (fun _ => some 7) fun _ _ => rfl
    rw [if_neg (by decide +kernel)] at write
    obtain ⟨t, s', run, -, -, content, -⟩ := write (by decide) (by decide)
    exact ⟨t, s', run, content⟩

/-- The bitmap of `smallDisk` has block 2, with the inodes, as free, and the block of the root
directory is full. -/
def looseDisk : Disk :=
  (smallDisk.setUsed smallSb 2 false).setDinode smallSb ROOTINO
    { smallDisk.dinode smallSb ROOTINO with size := 1024 }

/-- A write to the root directory of `looseDisk` gets the block with the inodes, and the other
directories are lost. -/
theorem loose_write_erases :
    (∀ x b, (rootRead looseDisk).own x = some b → smallSb.dataStart ≤ b ∧ b < smallSb.size ∧
      looseDisk.used smallSb b = true) ∧
    (∀ x y b, (rootRead looseDisk).own x = some b → (rootRead looseDisk).own y = some b → x = y) ∧
    (∀ i < smallSb.ninodes, ((rootRead looseDisk).node i).Full looseDisk) ∧
    Loaded (rootRead looseDisk) rootIp ∧ ((rootRead looseDisk).node 2).content looseDisk ≠ [] ∧
    ∃ s', (writei rootIp (fun _ => some 7) 1024 1).run (rootRead looseDisk) =
      some (.ok (some 1, s')) ∧ (s'.node 2).content s'.disk = [] := by
  have none : ∀ i < smallSb.ninodes, ((rootRead looseDisk).node i).addrs indirectSlot = 0 := by
    decide +kernel
  have direct : (rootRead looseDisk).direct =
      [((1, .addr 0), 4), ((2, .addr 0), 5), ((3, .addr 0), 6)] := by
    decide +kernel
  have data : ∀ y ∈ (rootRead looseDisk).direct, smallSb.dataStart ≤ y.2 ∧ y.2 < smallSb.size ∧
      looseDisk.used smallSb y.2 = true := by
    rw [direct]
    decide +kernel
  have once : ((rootRead looseDisk).direct.map Prod.snd).Nodup := by
    rw [direct]
    decide
  have full : ∀ i < smallSb.ninodes, ((rootRead looseDisk).node i).size.toNat ≤ NDIRECT * BSIZE ∧
      ∀ k : AddrSlot, k.val * BSIZE < ((rootRead looseDisk).node i).size.toNat →
        ((rootRead looseDisk).node i).addrs k ≠ 0 := by
    decide +kernel
  have write : ((writei rootIp (fun _ => some 7) 1024 1).run (rootRead looseDisk)).map
      (fun r => r.toOption.map fun y => (y.1, (y.2.node 2).content y.2.disk)) =
      some (some (some 1, [])) := by
    decide +kernel
  refine ⟨fun x b owns => data _ (own_direct none owns), fun x y b owns owns' => ?_,
    fun i small => Dinode.full_direct (full i small).1 (full i small).2,
    ⟨by decide, rfl, by decide +kernel⟩, by decide +kernel, ?_⟩
  · exact congrArg Prod.fst
      (List.inj_on_of_nodup_map once (own_direct none owns) (own_direct none owns') rfl)
  obtain ⟨r, run, ended⟩ := Option.map_eq_some_iff.mp write
  obtain ⟨y, result, shown⟩ := Option.map_eq_some_iff.mp ended
  cases r with
  | error e => cases result
  | ok z =>
    cases result
    obtain ⟨count, content⟩ := Prod.mk.inj shown
    exact ⟨y.2, by rw [run, ← count], content⟩

end Xv6.Fs
