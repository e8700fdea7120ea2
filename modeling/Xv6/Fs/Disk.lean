import Xv6.Log.Basic

/-!
# The on-disk format

`kernel/fs.h`: where the inodes and the free bitmap are on the disk, and how they are
coded in its blocks. A `Disk` is what `bread` finds, the buffer cache's content of
each block (`Log.Io.content`, the array that `Bio.Refines` is about).

The blocks below `dataStart` hold the boot block, the superblock, the log, the inodes
and the bitmap. `Layout` says that the inodes come before the bitmap; then the lemmas
below say that inodes, bitmap bits and data blocks are stored independently of each
other.
-/

namespace Xv6.Fs

open Log (BSIZE Block)

def ROOTINO : Nat := 1
def NDIRECT : Nat := 12
def NINDIRECT : Nat := BSIZE / 4
def MAXFILE : Nat := NDIRECT + NINDIRECT
def DIRSIZ : Nat := 14

/-- Inodes in a block, each of 16 words. -/
def IPB : Nat := BSIZE / 64

def BPB : Nat := BSIZE * 8

def T_DIR : UInt16 := 1
def T_FILE : UInt16 := 2
def T_DEVICE : UInt16 := 3

structure Superblock where
  size : Nat
  ninodes : Nat
  inodestart : Nat
  bmapstart : Nat

/-- `IBLOCK`: the block with inode `i`. -/
def Superblock.iblock (sb : Superblock) (i : Nat) : Nat := i / IPB + sb.inodestart

/-- `BBLOCK`: the block with the bitmap bit of block `b`. -/
def Superblock.bblock (sb : Superblock) (b : Nat) : Nat := b / BPB + sb.bmapstart

def Superblock.dataStart (sb : Superblock) : Nat := sb.bmapstart + sb.size / BPB + 1

/-- The inodes end before the bitmap, there is a root, and block numbers are `int`s. -/
structure Superblock.Layout (sb : Superblock) : Prop where
  inodes : sb.ninodes / IPB + sb.inodestart < sb.bmapstart
  root : ROOTINO < sb.ninodes
  size_lt : sb.size < 2 ^ 31

/-- The content of the blocks, as `bread` finds it. -/
abbrev Disk := Nat → Block

def Disk.set (d : Disk) (b : Nat) (block : Block) : Disk := fun x => if x = b then block else d x

@[simp] theorem Disk.set_self (d : Disk) (b : Nat) (block : Block) : d.set b block b = block :=
  if_pos rfl

theorem Disk.set_other (d : Disk) (block : Block) (other : x ≠ b) :
    d.set b block x = d x := if_neg other

/-- `struct dinode`; a `short` is kept as its 16 bits. -/
@[ext] structure Dinode where
  type : UInt16 := 0
  major : UInt16 := 0
  minor : UInt16 := 0
  nlink : UInt16 := 0
  size : UInt32 := 0
  addrs : Fin (NDIRECT + 1) → UInt32 := fun _ => 0

/-- The 16 words of an inode. -/
def Dinode.words (v : Dinode) : List Nat :=
  [v.type.toNat + 2 ^ 16 * v.major.toNat, v.minor.toNat + 2 ^ 16 * v.nlink.toNat, v.size.toNat] ++
    List.ofFn fun k => (v.addrs k).toNat

def Disk.dinode (d : Disk) (sb : Superblock) (i : Nat) : Dinode :=
  let block := d (sb.iblock i)
  let w := 16 * (i % IPB)
  { type := UInt16.ofNat (block.word w)
    major := UInt16.ofNat (block.word w / 2 ^ 16)
    minor := UInt16.ofNat (block.word (w + 1))
    nlink := UInt16.ofNat (block.word (w + 1) / 2 ^ 16)
    size := UInt32.ofNat (block.word (w + 2))
    addrs := fun k => UInt32.ofNat (block.word (w + 3 + k)) }

def Disk.setDinode (d : Disk) (sb : Superblock) (i : Nat) (v : Dinode) : Disk :=
  d.set (sb.iblock i) ((d (sb.iblock i)).setWords (16 * (i % IPB)) v.words)

/-- The bitmap bit of block `b`. -/
def Disk.used (d : Disk) (sb : Superblock) (b : Nat) : Bool := (d (sb.bblock b)).bit (b % BPB)

def Disk.setUsed (d : Disk) (sb : Superblock) (b : Nat) (v : Bool) : Disk :=
  d.set (sb.bblock b) ((d (sb.bblock b)).setBit (b % BPB) v)

/-! ## Inodes -/

section Inodes

variable {d : Disk} {sb : Superblock}

theorem Dinode.words_length (v : Dinode) : v.words.length = 16 := by
  simp [Dinode.words, NDIRECT]

theorem Dinode.words_lt (v : Dinode) : ∀ w ∈ v.words, w < 2 ^ 32 := by
  have type := v.type.toNat_lt
  have major := v.major.toNat_lt
  have minor := v.minor.toNat_lt
  have nlink := v.nlink.toNat_lt
  intro w mem
  simp only [Dinode.words, List.cons_append, List.nil_append, List.mem_cons, List.mem_ofFn] at mem
  rcases mem with rfl | rfl | rfl | ⟨k, rfl⟩
  · omega
  · omega
  · exact v.size.toNat_lt
  · exact (v.addrs k).toNat_lt

theorem Dinode.words_addr (v : Dinode) (k : Fin (NDIRECT + 1)) :
    v.words[3 + k.val]? = some (v.addrs k).toNat := by
  have inside : 3 + k.val - 3 < NDIRECT + 1 := by
    omega
  have place : (⟨3 + k.val - 3, inside⟩ : Fin (NDIRECT + 1)) = k := Fin.ext (by dsimp only; omega)
  unfold Dinode.words
  rw [List.getElem?_append_right (Nat.le_add_right 3 k.val), List.getElem?_ofFn]
  show (if h : 3 + k.val - 3 < NDIRECT + 1 then
    some (v.addrs ⟨3 + k.val - 3, h⟩).toNat else none) = _
  rw [dif_pos inside, place]

theorem Disk.setDinode_word (d : Disk) (sb : Superblock) (i : Nat) (v : Dinode)
    (inside : j < v.words.length) :
    (d.setDinode sb i v (sb.iblock i)).word (16 * (i % IPB) + j) = v.words[j] := by
  have length := v.words_length
  have room : i % IPB < 16 := Nat.mod_lt _ (by decide)
  unfold Disk.setDinode
  rw [Disk.set_self]
  exact Bytes.word_setWords _ _ (by unfold BSIZE; omega) v.words_lt inside

theorem UInt16.ofNat_low (a b : UInt16) : UInt16.ofNat (a.toNat + 2 ^ 16 * b.toNat) = a := by
  have small := a.toNat_lt
  apply UInt16.toNat_inj.mp
  rw [UInt16.toNat_ofNat']
  omega

theorem UInt16.ofNat_high (a b : UInt16) :
    UInt16.ofNat ((a.toNat + 2 ^ 16 * b.toNat) / 2 ^ 16) = b := by
  have small := a.toNat_lt
  have small' := b.toNat_lt
  apply UInt16.toNat_inj.mp
  rw [UInt16.toNat_ofNat']
  omega

theorem Disk.dinode_setDinode_self (d : Disk) (sb : Superblock) (i : Nat) (v : Dinode) :
    (d.setDinode sb i v).dinode sb i = v := by
  have length := v.words_length
  have word {j : Nat} (inside : j < v.words.length) := d.setDinode_word sb i v inside
  have w0 := word (j := 0) (by omega)
  have w1 := word (j := 1) (by omega)
  have w2 := word (j := 2) (by omega)
  rw [Nat.add_zero] at w0
  unfold Disk.dinode
  ext1
  · dsimp only
    rw [w0]
    exact UInt16.ofNat_low _ _
  · dsimp only
    rw [w0]
    exact UInt16.ofNat_high _ _
  · dsimp only
    rw [w1]
    exact UInt16.ofNat_low _ _
  · dsimp only
    rw [w1]
    exact UInt16.ofNat_high _ _
  · dsimp only
    rw [w2]
    exact UInt32.ofNat_toNat
  funext k
  have bound : 3 + k.val < v.words.length := by
    have := k.isLt
    unfold NDIRECT at this
    omega
  have entry : v.words[3 + k.val] = (v.addrs k).toNat :=
    (List.getElem?_eq_some_iff.mp (v.words_addr k)).2
  dsimp only
  rw [Nat.add_assoc, word bound, entry]
  exact UInt32.ofNat_toNat

theorem Disk.dinode_congr {d' : Disk}
    (same : ∀ j < 16, (d' (sb.iblock i)).word (16 * (i % IPB) + j) =
      (d (sb.iblock i)).word (16 * (i % IPB) + j)) : d'.dinode sb i = d.dinode sb i := by
  unfold Disk.dinode
  ext1
  · dsimp only
    rw [← Nat.add_zero (16 * (i % IPB)), same 0 (by decide)]
  · dsimp only
    rw [← Nat.add_zero (16 * (i % IPB)), same 0 (by decide)]
  · dsimp only
    rw [same 1 (by decide)]
  · dsimp only
    rw [same 1 (by decide)]
  · dsimp only
    rw [same 2 (by decide)]
  · funext k
    have bound := k.isLt
    dsimp only
    rw [Nat.add_assoc, same (3 + k) (by unfold NDIRECT at bound; omega)]

theorem Disk.dinode_setDinode_other (v : Dinode) (other : j ≠ i) :
    (d.setDinode sb i v).dinode sb j = d.dinode sb j := by
  apply Disk.dinode_congr
  intro w inside
  unfold Disk.setDinode
  by_cases same : sb.iblock j = sb.iblock i
  · have length := v.words_length
    have differ : j % IPB ≠ i % IPB := by
      unfold Superblock.iblock IPB BSIZE at same
      unfold IPB BSIZE
      omega
    rw [same, Disk.set_self]
    rcases Nat.lt_or_gt_of_ne differ with before | after
    · exact Bytes.word_setWords_before _ _ (by omega)
    · exact Bytes.word_setWords_after _ _ (by omega)
  · rw [Disk.set_other d _ same]

end Inodes

/-! ## The bitmap -/

section Bitmap

variable {d : Disk} {sb : Superblock}

theorem Disk.used_setUsed_self (d : Disk) (sb : Superblock) (b : Nat) (v : Bool) :
    (d.setUsed sb b v).used sb b = v := by
  unfold Disk.used Disk.setUsed
  rw [Disk.set_self]
  exact Bytes.bit_setBit_self _ _ (by unfold BPB BSIZE; omega)

theorem Disk.used_setUsed_other (v : Bool) (other : c ≠ b) :
    (d.setUsed sb b v).used sb c = d.used sb c := by
  unfold Disk.used Disk.setUsed
  by_cases same : sb.bblock c = sb.bblock b
  · have differ : c % BPB ≠ b % BPB := by
      unfold Superblock.bblock BPB BSIZE at same
      unfold BPB BSIZE
      omega
    rw [same, Disk.set_self]
    exact Bytes.bit_setBit_other _ _ differ
  · rw [Disk.set_other d _ same]

end Bitmap

/-! ## The three areas -/

section Areas

variable {d : Disk} {sb : Superblock} {i b x : Nat}

theorem Superblock.Layout.iblock_lt (layout : sb.Layout) (inum : i < sb.ninodes) :
    sb.iblock i < sb.bmapstart := by
  have le : i / IPB ≤ sb.ninodes / IPB := Nat.div_le_div_right (Nat.le_of_lt inum)
  have := layout.inodes
  unfold Superblock.iblock
  omega

theorem Superblock.bblock_lt (small : b < sb.size) : sb.bblock b < sb.dataStart := by
  have le : b / BPB ≤ sb.size / BPB := Nat.div_le_div_right (Nat.le_of_lt small)
  unfold Superblock.bblock Superblock.dataStart
  omega

theorem Superblock.bmapstart_lt (sb : Superblock) : sb.bmapstart < sb.dataStart :=
  Nat.lt_succ_of_le (Nat.le_add_right _ _)

theorem Superblock.bmapstart_le (sb : Superblock) (b : Nat) : sb.bmapstart ≤ sb.bblock b :=
  Nat.le_add_left _ _

theorem Disk.dinode_setUsed (layout : sb.Layout) (inum : i < sb.ninodes) (v : Bool) :
    (d.setUsed sb b v).dinode sb i = d.dinode sb i := by
  have before := Nat.lt_of_lt_of_le (layout.iblock_lt inum) (sb.bmapstart_le b)
  apply Disk.dinode_congr
  intro w _
  unfold Disk.setUsed
  rw [Disk.set_other d _ (by omega)]

theorem Disk.used_setDinode (layout : sb.Layout) (inum : i < sb.ninodes) (v : Dinode) :
    (d.setDinode sb i v).used sb b = d.used sb b := by
  have before := Nat.lt_of_lt_of_le (layout.iblock_lt inum) (sb.bmapstart_le b)
  unfold Disk.used Disk.setDinode
  rw [Disk.set_other d _ (by omega)]

theorem Disk.setUsed_data (small : b < sb.size) (isData : sb.dataStart ≤ x) (v : Bool) :
    d.setUsed sb b v x = d x := by
  have := Superblock.bblock_lt small
  unfold Disk.setUsed
  rw [Disk.set_other d _ (by omega)]

theorem Disk.setDinode_data (layout : sb.Layout) (inum : i < sb.ninodes)
    (isData : sb.dataStart ≤ x) (v : Dinode) : d.setDinode sb i v x = d x := by
  have before := layout.iblock_lt inum
  have := sb.bmapstart_lt
  unfold Disk.setDinode
  rw [Disk.set_other d _ (by omega)]

theorem Disk.dinode_set (layout : sb.Layout) (inum : i < sb.ninodes) (isData : sb.dataStart ≤ x)
    (block : Block) : (d.set x block).dinode sb i = d.dinode sb i := by
  have before := layout.iblock_lt inum
  have := sb.bmapstart_lt
  apply Disk.dinode_congr
  intro w _
  rw [Disk.set_other d _ (by omega)]

theorem Disk.used_set (small : b < sb.size) (isData : sb.dataStart ≤ x) (block : Block) :
    (d.set x block).used sb b = d.used sb b := by
  have := Superblock.bblock_lt small
  unfold Disk.used
  rw [Disk.set_other d _ (by omega)]

end Areas

end Xv6.Fs
