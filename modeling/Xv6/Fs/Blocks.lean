import Xv6.Lib.Ownership
import Xv6.Fs.Inode

/-!
# Which inode has which block

An inode has block numbers in the slots of its `addrs` and in the entries of its indirect
block. What counts is the inode as the system sees it: the copy in the inode table if it has
been read, and otherwise the one on the disk.

`Sound` says that the blocks in all these slots are data blocks that the bitmap has as used,
and that no block is in two slots; this is `Ownership.Owned`, with the free blocks as the
pool and an inode's slot as the key. The lemmas below say how `State.own` follows the
changes that the file system makes.
-/

namespace Xv6.Fs

open Log (BSIZE Block LOGBLOCKS)
open Ownership (Owned)

/-- Where an inode keeps block numbers. -/
inductive BlockSlot
  | addr (k : AddrSlot)
  | entry (j : Fin NINDIRECT)
deriving DecidableEq

/-- The number in a slot of an inode, 0 if there is none. -/
def Dinode.number (v : Dinode) (disk : Disk) : BlockSlot → Nat
  | .addr k => (v.addrs k).toNat
  | .entry j =>
    if v.addrs indirectSlot = 0 then 0 else (disk (v.addrs indirectSlot).toNat).word j.val

theorem Dinode.number_entry {v : Dinode} (is : v.addrs indirectSlot = a) (disk : Disk)
    (j : Fin NINDIRECT) :
    v.number disk (.entry j) = if a = 0 then 0 else (disk a.toNat).word j.val := by
  subst is
  rfl

theorem Dinode.number_addrs {v v' : Dinode} (same : v'.addrs = v.addrs) (disk : Disk)
    (x : BlockSlot) : v'.number disk x = v.number disk x := by
  cases x with
  | addr k =>
    unfold Dinode.number
    rw [same]
  | entry j => rw [Dinode.number_entry rfl, Dinode.number_entry rfl, same]

/-- The content of the block in a slot, which is zeros if there is no block. -/
def Dinode.data (v : Dinode) (disk : Disk) (x : BlockSlot) : Block :=
  if v.number disk x = 0 then fun _ => 0 else disk (v.number disk x)

/-- The block that an allocated inode has in a slot. -/
def Dinode.owns (v : Dinode) (disk : Disk) (x : BlockSlot) : Option Nat :=
  if v.type ≠ 0 ∧ v.number disk x ≠ 0 then some (v.number disk x) else none

theorem Dinode.owns_eq_some {v : Dinode} :
    v.owns disk x = some b ↔ v.type ≠ 0 ∧ b ≠ 0 ∧ v.number disk x = b := by
  unfold Dinode.owns
  split
  · next h =>
    rw [Option.some.injEq]
    constructor
    · rintro rfl
      exact ⟨h.1, h.2, rfl⟩
    · exact fun h' => h'.2.2
  · next h =>
    constructor
    · exact nofun
    · rintro ⟨type, nonzero, rfl⟩
      exact absurd ⟨type, nonzero⟩ h

namespace State

/-- Inode `i` as the system sees it. -/
def node (s : State) (i : Nat) : Dinode :=
  match s.findInode i with
  | some ip => if (s.itable ip).valid then (s.itable ip).toDinode else s.disk.dinode s.sb i
  | none => s.disk.dinode s.sb i

def own (s : State) (x : Nat × BlockSlot) : Option Nat :=
  if x.1 < s.sb.ninodes then (s.node x.1).owns s.disk x.2 else none

def freeBlocks (s : State) : Multiset Nat :=
  ((List.range s.sb.size).filter fun b => !s.disk.used s.sb b : List Nat)

end State

/-- Not a data block: one with a fixed use, or none of the disk. -/
def Superblock.NotData (sb : Superblock) (b : Nat) : Prop := b < sb.dataStart ∨ sb.size ≤ b

/-- No inode has two entries in use. -/
def State.Unique (s : State) : Prop :=
  ∀ ⦃e e'⦄, 0 < (s.itable e).ref → 0 < (s.itable e').ref →
    (s.itable e).inum = (s.itable e').inum → e = e'

/-- The entries in use are for different inodes of the disk, and blocks are owned once. -/
structure Sound (s : State) : Prop where
  layout : s.sb.Layout
  unique : s.Unique
  inum_lt : ∀ {e}, 0 < (s.itable e).ref → (s.itable e).inum < s.sb.ninodes
  owned : Owned s.freeBlocks s.own s.sb.NotData s.sb.NotData

structure Loaded (s : State) (ip : Ip) : Prop where
  used : 0 < (s.itable ip).ref
  valid : (s.itable ip).valid = true
  type : (s.itable ip).type ≠ 0

def State.number (s : State) (ip : Ip) (x : BlockSlot) : Nat :=
  (s.itable ip).toDinode.number s.disk x

theorem number_addr {s : State} : s.number ip (.addr k) = 0 ↔ (s.itable ip).addrs k = 0 :=
  ⟨fun zero => UInt32.toNat_inj.mp zero, fun zero => congrArg UInt32.toNat zero⟩

def State.data (s : State) (ip : Ip) (x : BlockSlot) : Block :=
  (s.itable ip).toDinode.data s.disk x

/-- The slot of the indirect block, whose content is no content of the inode. -/
abbrev indirectBlock : BlockSlot := .addr indirectSlot

theorem number_entry {s : State} (there : s.number ip indirectBlock ≠ 0) (j : Fin NINDIRECT) :
    s.number ip (.entry j) = (s.disk (s.number ip indirectBlock)).word j.val :=
  (Dinode.number_entry rfl s.disk j).trans (if_neg fun zero => there (number_addr.mpr zero))

theorem number_entry_none {s : State} (none : s.number ip indirectBlock = 0) (j : Fin NINDIRECT) :
    s.number ip (.entry j) = 0 :=
  (Dinode.number_entry (number_addr.mp none) s.disk j).trans (if_pos rfl)

/-! ## The view of an inode -/

section Node

variable {s s' : State} {ip : Ip} {i : Nat}

theorem State.Unique.find (unique : s.Unique) (used : 0 < (s.itable ip).ref) :
    s.findInode (s.itable ip).inum = some ip := by
  cases found : s.findInode (s.itable ip).inum with
  | none => exact absurd rfl (findInode_none found used)
  | some e =>
    obtain ⟨used', same⟩ := findInode_some found
    rw [unique used' used same]

theorem State.Unique.node_loaded (unique : s.Unique) (loaded : Loaded s ip) :
    s.node (s.itable ip).inum = (s.itable ip).toDinode := by
  unfold State.node
  rw [unique.find loaded.used]
  exact if_pos loaded.valid

theorem State.Unique.congr (unique : s.Unique) (same : ∀ e, (s'.itable e).ref = (s.itable e).ref ∧
    (s'.itable e).inum = (s.itable e).inum) : s'.Unique := by
  intro e e' used used' eq
  rw [(same e).1] at used
  rw [(same e').1] at used'
  rw [(same e).2, (same e').2] at eq
  exact unique used used' eq

theorem find_congr (same : ∀ e, (s'.itable e).ref = (s.itable e).ref ∧
    (s'.itable e).inum = (s.itable e).inum) (i : Nat) : s'.findInode i = s.findInode i := by
  unfold State.findInode
  congr 1
  funext e
  rw [(same e).1, (same e).2]

theorem node_congr (same : ∀ e, (s'.itable e).ref = (s.itable e).ref ∧
      (s'.itable e).inum = (s.itable e).inum)
    (copy : ∀ e, (s.itable e).inum = i → (s'.itable e).valid = (s.itable e).valid ∧
      (s'.itable e).toDinode = (s.itable e).toDinode)
    (disk : s'.disk.dinode s'.sb i = s.disk.dinode s.sb i) : s'.node i = s.node i := by
  unfold State.node
  rw [find_congr same i, disk]
  cases found : s.findInode i with
  | none => rfl
  | some ip =>
    obtain ⟨valid, dinode⟩ := copy ip (findInode_some found).2
    dsimp only
    rw [valid, dinode]

end Node

/-! ## Who owns what -/

section Own

variable {s s' : State} {ip : Ip} {i b : Nat} {x : BlockSlot}

theorem own_eq_some : s.own (i, x) = some b ↔
    i < s.sb.ninodes ∧ (s.node i).type ≠ 0 ∧ b ≠ 0 ∧ (s.node i).number s.disk x = b := by
  unfold State.own
  split
  · next small =>
    rw [Dinode.owns_eq_some]
    exact ⟨fun h => ⟨small, h⟩, fun h => h.2⟩
  · next large => exact ⟨nofun, fun h => absurd h.1 large⟩

theorem State.Unique.own_loaded (unique : s.Unique) (loaded : Loaded s ip)
    (small : (s.itable ip).inum < s.sb.ninodes) : s.own ((s.itable ip).inum, x) =
      if s.number ip x = 0 then none else some (s.number ip x) := by
  unfold State.own Dinode.owns
  rw [if_pos small, unique.node_loaded loaded]
  split
  · next h => exact (if_neg h.2).symm
  · next h => exact (if_pos (Classical.not_not.mp fun nonzero => h ⟨loaded.type, nonzero⟩)).symm

theorem Sound.own_number (sound : Sound s) (loaded : Loaded s ip) (nonzero : s.number ip x ≠ 0) :
    s.own ((s.itable ip).inum, x) = some (s.number ip x) := by
  rw [sound.unique.own_loaded loaded (sound.inum_lt loaded.used), if_neg nonzero]

theorem Sound.own_data (sound : Sound s) (owns : s.own y = some b) :
    s.sb.dataStart ≤ b ∧ b < s.sb.size := by
  have data := sound.owned.own_apart owns
  unfold Superblock.NotData at data
  omega

theorem mem_freeBlocks : b ∈ s.freeBlocks ↔ b < s.sb.size ∧ s.disk.used s.sb b = false := by
  unfold State.freeBlocks
  rw [Multiset.mem_coe, List.mem_filter, List.mem_range, Bool.not_eq_true']

theorem Sound.free_data (sound : Sound s) (free : b ∈ s.freeBlocks) :
    s.sb.dataStart ≤ b ∧ b < s.sb.size := by
  have data : ¬ s.sb.NotData b := fun away => sound.owned.foreign_outside away free
  unfold Superblock.NotData at data
  omega

theorem Sound.free_ne_zero (sound : Sound s) (free : b ∈ s.freeBlocks) : b ≠ 0 := by
  have positive : 0 < s.sb.dataStart := Nat.succ_pos _
  have := (sound.free_data free).1
  omega

theorem Dinode.number_congr {v : Dinode}
    (indirect : v.addrs indirectSlot ≠ 0 →
      disk' (v.addrs indirectSlot).toNat = disk (v.addrs indirectSlot).toNat) (x : BlockSlot) :
    v.number disk' x = v.number disk x := by
  cases x with
  | addr k => rfl
  | entry j =>
    unfold Dinode.number
    dsimp only
    split
    · rfl
    · next nonzero => rw [indirect nonzero]

theorem own_congr (sb : s'.sb = s.sb) (node : i < s.sb.ninodes → s'.node i = s.node i)
    (indirect : ∀ c, s.own (i, indirectBlock) = some c → s'.disk c = s.disk c)
    (x : BlockSlot) : s'.own (i, x) = s.own (i, x) := by
  unfold State.own
  rw [sb]
  split
  · next small =>
    rw [node small]
    by_cases type : (s.node i).type = 0
    · unfold Dinode.owns
      rw [if_neg (fun h => h.1 type), if_neg fun h => h.1 type]
    have number : (s.node i).number s'.disk x = (s.node i).number s.disk x := by
      refine Dinode.number_congr (fun nonzero => ?_) x
      refine indirect _ (own_eq_some.mpr ⟨small, type, fun zero => ?_, rfl⟩)
      exact nonzero (UInt32.toNat_inj.mp zero)
    unfold Dinode.owns
    rw [number]
  · rfl

theorem nodup_freeBlocks (s : State) : s.freeBlocks.Nodup :=
  Multiset.coe_nodup.mpr (List.nodup_range.filter _)

theorem freeBlocks_congr (sb : s'.sb = s.sb)
    (same : ∀ c, c < s.sb.size → s'.disk.used s.sb c = s.disk.used s.sb c) :
    s'.freeBlocks = s.freeBlocks := by
  refine (Multiset.Nodup.ext (nodup_freeBlocks s') (nodup_freeBlocks s)).mpr fun c => ?_
  rw [mem_freeBlocks, mem_freeBlocks, sb]
  exact and_congr_right fun inside => by rw [same c inside]

theorem freeBlocks_cons (sb : s'.sb = s.sb) (small : b < s.sb.size)
    (free : s.disk.used s.sb b = false) (taken : s'.disk.used s.sb b = true)
    (other : ∀ c, c < s.sb.size → c ≠ b → s'.disk.used s.sb c = s.disk.used s.sb c) :
    s.freeBlocks = b ::ₘ s'.freeBlocks := by
  have out : b ∉ s'.freeBlocks := by
    rw [mem_freeBlocks, sb, taken]
    exact fun h => Bool.noConfusion h.2
  have nodup : (b ::ₘ s'.freeBlocks).Nodup := Multiset.nodup_cons.mpr ⟨out, nodup_freeBlocks s'⟩
  refine (Multiset.Nodup.ext (nodup_freeBlocks s) nodup).mpr fun c => ?_
  rw [Multiset.mem_cons, mem_freeBlocks, mem_freeBlocks, sb]
  by_cases same : c = b
  · subst same
    exact ⟨fun _ => .inl rfl, fun _ => ⟨small, free⟩⟩
  constructor
  · rintro ⟨inside, unused⟩
    exact .inr ⟨inside, (other c inside same).trans unused⟩
  · rintro (eq | ⟨inside, unused⟩)
    · exact absurd eq same
    · exact ⟨inside, (other c inside same).symm.trans unused⟩

end Own

/-! ## States without indirect blocks

What such a state owns can be listed, and so the invariant can be decided. -/

/-- The blocks in the slots of all `addrs`. -/
def State.direct (s : State) : List ((Nat × BlockSlot) × Nat) :=
  (List.range s.sb.ninodes).flatMap fun i => (List.finRange (NDIRECT + 1)).filterMap fun k =>
    (s.own (i, .addr k)).map fun b => ((i, .addr k), b)

theorem own_direct {s : State} (none : ∀ i < s.sb.ninodes, (s.node i).addrs indirectSlot = 0)
    (owns : s.own x = some b) : (x, b) ∈ s.direct := by
  obtain ⟨i, x⟩ := x
  obtain ⟨small, -, nonzero, number⟩ := own_eq_some.mp owns
  cases x with
  | addr k =>
    refine List.mem_flatMap.mpr ⟨i, List.mem_range.mpr small, ?_⟩
    refine List.mem_filterMap.mpr ⟨k, List.mem_finRange k, ?_⟩
    rw [owns]
    rfl
  | entry j =>
    rw [Dinode.number_entry (none i small), if_pos rfl] at number
    exact absurd number.symm nonzero

theorem sound_of_direct {s : State} (layout : s.sb.Layout) (unique : s.Unique)
    (inum_lt : ∀ {e}, 0 < (s.itable e).ref → (s.itable e).inum < s.sb.ninodes)
    (none : ∀ i < s.sb.ninodes, (s.node i).addrs indirectSlot = 0)
    (once : (s.direct.map Prod.snd).Nodup)
    (data : ∀ y ∈ s.direct, s.sb.dataStart ≤ y.2 ∧ y.2 < s.sb.size ∧ s.disk.used s.sb y.2 = true)
    (fixed : ∀ b < s.sb.dataStart, s.disk.used s.sb b = true) : Sound s where
  layout := layout
  unique := unique
  inum_lt := inum_lt
  owned :=
    { nodup := nodup_freeBlocks s
      outside := fun owns free => by
        have used := (data _ (own_direct none owns)).2.2
        rw [(mem_freeBlocks.mp free).2] at used
        cases used
      inj := fun owns owns' => congrArg Prod.fst
        (List.inj_on_of_nodup_map once (own_direct none owns) (own_direct none owns') rfl)
      foreign_outside := by
        rintro b (low | high) free
        · exact Bool.noConfusion ((fixed b low).symm.trans (mem_freeBlocks.mp free).2)
        · exact Nat.not_lt.mpr high (mem_freeBlocks.mp free).1
      own_apart := fun owns away => by
        have := data _ (own_direct none owns)
        unfold Superblock.NotData at away
        omega }

end Xv6.Fs
