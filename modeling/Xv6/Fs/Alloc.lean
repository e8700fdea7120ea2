import Mathlib.Algebra.BigOperators.Group.Finset.Piecewise
import Xv6.Fs.Blocks

/-!
# Allocation of blocks

What `balloc` and `bmap` do: an inode gets a block that was free, in a slot where it had none,
and nothing else differs. `Touches ip s s'` is the frame of all functions that work on the
content of one inode: `s'` differs from `s` in the blocks of `*ip` only.

A `log_write` fails if the log is full, so that the number of blocks in the log is followed
too. `State.weight` counts two blocks for the indirect block, which `bmap` logs at most
once. The free blocks and the slots that are filled make a constant sum.
-/

namespace Xv6.Fs

open Log (BSIZE Block LOGBLOCKS)
open Ownership (Owned)
open Function

/-! ## The log -/

/-- The state after a `log_write` of `b` that succeeds. -/
def State.logged (s : State) (b : Nat) (disk : Disk) : State :=
  { s with
    disk := disk
    log := { s.log with
      block := if b ∈ s.log.block then s.log.block else s.log.block ++ [b] } }

/-- How a `log_write` fails, if there are at most `n` blocks in the log. -/
def LogFails (n : Nat) (s : State) (e : Option Panic) : Prop :=
  e = some .logTooBig ∧ LOGBLOCKS ≤ n ∨ e = some .logOutside ∧ s.log.outstanding < 1

/-- The log goes on, with at most `n` more blocks. -/
structure Logs (n : Nat) (s s' : State) : Prop where
  outstanding : s'.log.outstanding = s.log.outstanding
  sub : s.log.block ⊆ s'.log.block
  length : s'.log.block.length ≤ s.log.block.length + n

section Log

variable {α : Type} {s s' s'' : State} {b n m : Nat} {disk : Disk} {E : Option Panic → Prop}
  {Q : α → State → Prop}

theorem record_ends (a : α) (fails : ∀ e, LogFails s.log.block.length s e → E e)
    (holds : Q a (s.logged b disk)) :
    Prog.StepEnds E Q (some ((s.record b disk).map fun s => (a, s))) := by
  unfold State.record
  split
  · next full => exact fails _ (.inl ⟨rfl, full⟩)
  · split
    · next outside => exact fails _ (.inr ⟨rfl, outside⟩)
    · exact holds

theorem after_store {b : State → Nat} {disk : State → Disk} {next : Unit → FsM α} (label : Label)
    (fails : ∀ e, LogFails s.log.block.length s e → E e)
    (rest : (next ()).Ends E Q (s.logged (b s) (disk s))) :
    (store label b disk >>= next).Ends E Q s :=
  Prog.Ends.bind (.atomic (record_ends (Q := fun u s' => (next u).Ends E Q s') () fails rest))
    fun _ _ ends => ends

theorem LogFails.mono (fails : LogFails n s e) (le : n ≤ m)
    (same : s'.log.outstanding = s.log.outstanding) : LogFails m s' e := by
  rcases fails with ⟨is, full⟩ | ⟨is, outside⟩
  · exact .inl ⟨is, Nat.le_trans full le⟩
  · exact .inr ⟨is, same ▸ outside⟩

theorem Logs.trans (first : Logs n s s') (rest : Logs m s' s'') : Logs (n + m) s s'' where
  outstanding := rest.outstanding.trans first.outstanding
  sub := List.Subset.trans first.sub rest.sub
  length := by
    have := first.length
    have := rest.length
    omega

theorem logged_mem (s : State) (b : Nat) (disk : Disk) : b ∈ (s.logged b disk).log.block := by
  unfold State.logged
  split
  · next mem => exact mem
  · exact List.mem_append_right _ List.mem_cons_self

theorem logged_absorbs (mem : b ∈ s.log.block) : Logs 0 s (s.logged b disk) := by
  have same : (s.logged b disk).log.block = s.log.block := if_pos mem
  exact ⟨rfl, by rw [same]; exact List.Subset.refl _, by rw [same]; exact le_rfl⟩

theorem logged_logs (s : State) (b : Nat) (disk : Disk) : Logs 1 s (s.logged b disk) := by
  by_cases mem : b ∈ s.log.block
  · have absorbed : Logs 0 s (s.logged b disk) := logged_absorbs mem
    exact ⟨rfl, absorbed.sub, Nat.le_succ_of_le absorbed.length⟩
  have more : (s.logged b disk).log.block = s.log.block ++ [b] := if_neg mem
  refine ⟨rfl, ?_, ?_⟩
  · rw [more]
    exact List.subset_append_left _ _
  · rw [more, List.length_append]
    exact le_rfl

end Log

/-- The log has grown by blocks of `L`, and the blocks that have changed are in it. -/
structure Traced (L : Set Nat) (s s' : State) : Prop where
  sub : s.log.block ⊆ s'.log.block
  within : ∀ b ∈ s'.log.block, b ∈ s.log.block ∨ b ∈ L
  changed : ∀ b, s'.disk b ≠ s.disk b → b ∈ s'.log.block

section Traced

variable {s s' s'' : State} {L L' : Set Nat} {b : Nat}

theorem Traced.refl (s : State) : Traced L s s :=
  ⟨List.Subset.refl _, fun _ mem => .inl mem, fun _ differs => absurd rfl differs⟩

theorem Traced.mono (traced : Traced L s s') (le : L ⊆ L') : Traced L' s s' :=
  ⟨traced.sub, fun b mem => (traced.within b mem).imp_right fun new => le new, traced.changed⟩

theorem Traced.trans (first : Traced L s s') (rest : Traced L s' s'') : Traced L s s'' where
  sub := List.Subset.trans first.sub rest.sub
  within b mem := by
    rcases rest.within b mem with old | new
    · exact first.within b old
    · exact .inr new
  changed b differs := by
    by_cases later : s''.disk b = s'.disk b
    · rw [later] at differs
      exact rest.sub (first.changed b differs)
    · exact rest.changed b later

theorem logged_traced (mem : b ∈ L) (block : Block) :
    Traced L s (s.logged b (s.disk.set b block)) where
  sub := (logged_logs s b _).sub
  within c inside := by
    unfold State.logged at inside
    split at inside
    · exact .inl inside
    · refine (List.mem_append.mp inside).imp_right fun new => ?_
      rw [List.mem_singleton.mp new]
      exact mem
  changed c differs := by
    by_cases here : c = b
    · rw [here]
      exact logged_mem s b _
    · exact absurd (Disk.set_other _ _ here) differs

end Traced

/-! ## A new block -/

/-- The blocks that `bmap` may log: those with a fixed use, new ones, and the indirect block. -/
def State.mapLogs (s : State) (ip : Ip) : Set Nat :=
  {b | b < s.sb.dataStart ∨ b ∈ s.freeBlocks ∨ b = s.number ip indirectBlock}

/-- Block `b` was free; it has been marked as used and zeroed, and nothing else differs. -/
structure Allocated (b : Nat) (s s' : State) : Prop where
  sb : s'.sb = s.sb
  itable : s'.itable = s.itable
  dinode : ∀ i, i < s.sb.ninodes → s'.disk.dinode s.sb i = s.disk.dinode s.sb i
  free : s.freeBlocks = b ::ₘ s'.freeBlocks
  zero : s'.disk b = fun _ => 0
  other : ∀ c, s.sb.dataStart ≤ c → c ≠ b → s'.disk c = s.disk c

section Balloc

variable {s s' : State} {ip : Ip} {b i : Nat}

theorem freeBlock_some (found : s.freeBlock = some b) : b ∈ s.freeBlocks := by
  have free := List.find?_some found
  have inside := List.mem_of_find?_eq_some found
  rw [mem_freeBlocks]
  exact ⟨List.mem_range.mp inside, by simpa using free⟩

theorem freeBlock_none (found : s.freeBlock = none) : s.freeBlocks = 0 := by
  refine Multiset.eq_zero_of_forall_notMem fun b free => ?_
  obtain ⟨small, unused⟩ := mem_freeBlocks.mp free
  have all := List.find?_eq_none.mp found b (List.mem_range.mpr small)
  rw [unused] at all
  exact all rfl

theorem Allocated.mem (new : Allocated b s s') : b ∈ s.freeBlocks := by
  rw [new.free]
  exact Multiset.mem_cons_self b _

theorem balloc_ends (sound : Sound s) (ip : Ip) :
    balloc.Ends (LogFails (s.log.block.length + 1) s)
      (fun b s' => b = 0 ∧ s' = s ∧ s.freeBlocks = 0 ∨
        b ≠ 0 ∧ Allocated b s s' ∧ Logs 2 s s' ∧ b ∈ s'.log.block ∧
          Traced (s.mapLogs ip) s s') s := by
  have marked : markFree.Ends (LogFails (s.log.block.length + 1) s)
      (fun found s' => match found with
        | some b => b ∈ s.freeBlocks ∧
            s' = s.logged (s.sb.bblock b) (s.disk.setUsed s.sb b true)
        | none => s' = s ∧ s.freeBlocks = 0) s := by
    refine .atomic ?_
    split
    · next none => exact ⟨rfl, freeBlock_none none⟩
    · next b found =>
      refine record_ends _ (fun e fails => fails.mono (Nat.le_succ _) rfl) ?_
      exact ⟨freeBlock_some found, rfl⟩
  refine marked.bind fun found s1 after => ?_
  cases found with
  | none =>
    obtain ⟨rfl, none⟩ := after
    exact .inl ⟨rfl, rfl, none⟩
  | some b =>
    obtain ⟨free, rfl⟩ := after
    obtain ⟨isData, small⟩ := sound.free_data free
    have log1 := logged_logs s (s.sb.bblock b) (s.disk.setUsed s.sb b true)
    refine after_store .other (fun e fails => fails.mono log1.length ?_) ?_
    · exact log1.outstanding.symm
    have traced1 : Traced (s.mapLogs ip) s (s.logged (s.sb.bblock b)
        (s.disk.setUsed s.sb b true)) :=
      logged_traced (.inl (Superblock.bblock_lt small)) _
    refine .inr ⟨sound.free_ne_zero free, ?_, log1.trans (logged_logs _ _ _), logged_mem _ _ _,
      traced1.trans (logged_traced (.inr (.inl free)) _)⟩
    refine ⟨rfl, rfl, fun i inum => ?_, ?_, Disk.set_self _ _ _, fun c data other => ?_⟩
    · show ((s.disk.setUsed s.sb b true).set b _).dinode s.sb i = _
      rw [Disk.dinode_set sound.layout inum isData, Disk.dinode_setUsed sound.layout inum]
    · refine freeBlocks_cons rfl small (mem_freeBlocks.mp free).2 ?_ fun c inside other => ?_
      · show ((s.disk.setUsed s.sb b true).set b _).used s.sb b = _
        rw [Disk.used_set small isData, Disk.used_setUsed_self]
      · show ((s.disk.setUsed s.sb b true).set b _).used s.sb c = _
        rw [Disk.used_set inside isData, Disk.used_setUsed_other _ other]
    · show ((s.disk.setUsed s.sb b true).set b _) c = _
      rw [Disk.set_other _ _ other, Disk.setUsed_data small data]

end Balloc

/-! ## Changes to one inode -/

/-- `s'` differs from `s` only in what belongs to the inode at `ip`. -/
structure Frame (ip : Ip) (s s' : State) : Prop where
  sound : Sound s'
  sb : s'.sb = s.sb
  others : ∀ e, e ≠ ip → s'.itable e = s.itable e
  entry : s'.itable ip = { s.itable ip with toDinode := (s'.itable ip).toDinode }
  dinode : ∀ i, i < s.sb.ninodes → i ≠ (s.itable ip).inum →
    s'.disk.dinode s.sb i = s.disk.dinode s.sb i
  foreign : ∀ i, i ≠ (s.itable ip).inum → ∀ x, s'.own (i, x) = s.own (i, x) ∧
    ∀ b, s.own (i, x) = some b → s'.disk b = s.disk b

/-- `s'` differs from `s` only in the blocks of `*ip`, which may have got more of them. -/
structure Touches (ip : Ip) (s s' : State) : Prop where
  sound : Sound s'
  sb : s'.sb = s.sb
  others : ∀ e, e ≠ ip → s'.itable e = s.itable e
  copy : s'.itable ip = { s.itable ip with addrs := (s'.itable ip).addrs }
  dinode : ∀ i, i < s.sb.ninodes → s'.disk.dinode s.sb i = s.disk.dinode s.sb i
  kept : ∀ x, s.number ip x ≠ 0 → s'.number ip x = s.number ip x
  foreign : ∀ i, i ≠ (s.itable ip).inum → ∀ x, s'.own (i, x) = s.own (i, x) ∧
    ∀ b, s.own (i, x) = some b → s'.disk b = s.disk b
  free : s'.freeBlocks ≤ s.freeBlocks

/-- The content of `*ip` is the same too. -/
structure Grows (ip : Ip) (s s' : State) : Prop extends Touches ip s s' where
  data : ∀ x, x ≠ indirectBlock → s'.data ip x = s.data ip x

section Touches

variable {s s' s'' : State} {ip : Ip} {b i : Nat} {x : BlockSlot}

theorem Touches.frame (touches : Touches ip s s') : Frame ip s s' where
  sound := touches.sound
  sb := touches.sb
  others := touches.others
  entry := by
    rw [touches.copy]
  dinode i small _ := touches.dinode i small
  foreign := touches.foreign

theorem Frame.inum (frame : Frame ip s s') : (s'.itable ip).inum = (s.itable ip).inum := by
  rw [frame.entry]

theorem Frame.trans (first : Frame ip s s') (rest : Frame ip s' s'') : Frame ip s s'' where
  sound := rest.sound
  sb := rest.sb.trans first.sb
  others e other := (rest.others e other).trans (first.others e other)
  entry := by
    rw [rest.entry, first.entry]
  dinode i small other := by
    have later := rest.dinode i (first.sb.symm ▸ small) (first.inum ▸ other)
    rw [first.sb] at later
    exact later.trans (first.dinode i small other)
  foreign i other x := by
    obtain ⟨own, disk⟩ := first.foreign i other x
    obtain ⟨own', disk'⟩ := rest.foreign i (first.inum ▸ other) x
    refine ⟨own'.trans own, fun b owns => ?_⟩
    rw [disk' b (own ▸ owns), disk b owns]

theorem Touches.refl (sound : Sound s) (ip : Ip) : Touches ip s s where
  sound := sound
  sb := rfl
  others _ _ := rfl
  copy := rfl
  dinode _ _ := rfl
  kept _ _ := rfl
  foreign _ _ _ := ⟨rfl, fun _ _ => rfl⟩
  free := le_refl _

theorem Touches.inum (touches : Touches ip s s') : (s'.itable ip).inum = (s.itable ip).inum :=
  touches.frame.inum

theorem Touches.trans (first : Touches ip s s') (rest : Touches ip s' s'') : Touches ip s s'' :=
  { first.frame.trans rest.frame with
    copy := by rw [rest.copy, first.copy]
    dinode := fun i small => by
      have later := rest.dinode i (first.sb.symm ▸ small)
      rw [first.sb] at later
      exact later.trans (first.dinode i small)
    kept := fun x nonzero => by
      have same := first.kept x nonzero
      rw [rest.kept x (same ▸ nonzero), same]
    free := rest.free.trans first.free }

theorem Touches.loaded (touches : Touches ip s s') (loaded : Loaded s ip) : Loaded s' ip := by
  have copy := touches.copy
  refine ⟨?_, ?_, ?_⟩
  · rw [copy]
    exact loaded.used
  · rw [copy]
    exact loaded.valid
  · rw [copy]
    exact loaded.type

theorem Grows.refl (sound : Sound s) (ip : Ip) : Grows ip s s :=
  { Touches.refl sound ip with data := fun _ _ => rfl }

theorem Grows.trans (first : Grows ip s s') (rest : Grows ip s' s'') : Grows ip s s'' :=
  { first.toTouches.trans rest.toTouches with
    data := fun x other => (rest.data x other).trans (first.data x other) }

theorem node_other (sb : s'.sb = s.sb) (others : ∀ e, e ≠ ip → s'.itable e = s.itable e)
    (entry : s'.itable ip = { s.itable ip with toDinode := (s'.itable ip).toDinode })
    (dinode : s'.disk.dinode s.sb i = s.disk.dinode s.sb i) (other : i ≠ (s.itable ip).inum) :
    s'.node i = s.node i := by
  refine node_congr (fun e => ?_) (fun e is => ?_) (by rw [sb, dinode])
  · by_cases same : e = ip
    · rw [same, entry]
      exact ⟨rfl, rfl⟩
    · rw [others e same]
      exact ⟨rfl, rfl⟩
  · have differ : e ≠ ip := by
      rintro rfl
      exact other is.symm
    rw [others e differ]
    exact ⟨rfl, rfl⟩

end Touches

/-! ## The other fields -/

section Fields

variable {s : State} {ip : Ip} {f : Inode → Inode}

/-- An assignment to fields that have nothing to do with blocks. -/
structure Plain (f : Inode → Inode) : Prop where
  entry : ∀ v, f v = { v with toDinode := (f v).toDinode }
  type : ∀ v, (f v).type = v.type
  addrs : ∀ v, (f v).addrs = v.addrs

theorem Plain.refs (plain : Plain f) (s : State) (ip e : Ip) :
    ((s.modifyInode ip f).itable e).ref = (s.itable e).ref ∧
      ((s.modifyInode ip f).itable e).inum = (s.itable e).inum :=
  ⟨s.modifyInode_field Inode.ref (fun v => by rw [plain.entry]) ip e,
    s.modifyInode_field Inode.inum (fun v => by rw [plain.entry]) ip e⟩

theorem Plain.own (plain : Plain f) (s : State) (ip : Ip) : (s.modifyInode ip f).own = s.own := by
  have slots (i : Nat) : ((s.modifyInode ip f).node i).type = (s.node i).type ∧
      ((s.modifyInode ip f).node i).addrs = (s.node i).addrs := by
    unfold State.node
    rw [find_congr (plain.refs s ip) i]
    cases s.findInode i with
    | none => exact ⟨rfl, rfl⟩
    | some e =>
      have valid := s.modifyInode_field Inode.valid (f := f) (fun v => by rw [plain.entry]) ip e
      have type := s.modifyInode_field (fun v => v.type) plain.type ip e
      have addrs := s.modifyInode_field (fun v => v.addrs) plain.addrs ip e
      dsimp only
      rw [valid]
      split
      · exact ⟨type, addrs⟩
      · exact ⟨rfl, rfl⟩
  funext ⟨i, x⟩
  have number := Dinode.number_addrs (slots i).2 s.disk x
  unfold State.own Dinode.owns
  rw [(slots i).1]
  show (if i < s.sb.ninodes then if (s.node i).type ≠ 0 ∧
    ((s.modifyInode ip f).node i).number s.disk x ≠ 0 then
      some (((s.modifyInode ip f).node i).number s.disk x) else _ else _) = _
  rw [number]

theorem Plain.frame (plain : Plain f) (sound : Sound s) (ip : Ip) :
    Frame ip s (s.modifyInode ip f) where
  sound :=
    { layout := sound.layout
      unique := sound.unique.congr (plain.refs s ip)
      inum_lt := fun {e} used => by
        rw [(plain.refs s ip e).1] at used
        rw [(plain.refs s ip e).2]
        exact sound.inum_lt used
      owned := by
        rw [plain.own]
        exact sound.owned }
  sb := rfl
  others e other := s.modifyInode_other f other
  entry := by
    rw [State.modifyInode_self]
    exact plain.entry _
  dinode _ _ _ := rfl
  foreign i _ x := ⟨by rw [plain.own], fun _ _ => rfl⟩

def State.updated (s : State) (ip : Ip) : State :=
  s.logged (s.sb.iblock (s.itable ip).inum)
    (s.disk.setDinode s.sb (s.itable ip).inum (s.itable ip).toDinode)

theorem updated_dinode (s : State) (ip : Ip) :
    (s.updated ip).disk.dinode s.sb (s.itable ip).inum = (s.itable ip).toDinode :=
  Disk.dinode_setDinode_self _ _ _ _

theorem updated_free (sound : Sound s) (used : 0 < (s.itable ip).ref) :
    (s.updated ip).freeBlocks = s.freeBlocks :=
  freeBlocks_congr rfl fun _ _ => Disk.used_setDinode sound.layout (sound.inum_lt used) _

theorem updated_frame (sound : Sound s) (loaded : Loaded s ip) : Frame ip s (s.updated ip) := by
  have small := sound.inum_lt loaded.used
  have node (i : Nat) (inside : i < s.sb.ninodes) : (s.updated ip).node i = s.node i := by
    by_cases here : i = (s.itable ip).inum
    · rw [here, sound.unique.node_loaded loaded]
      have unique : (s.updated ip).Unique := sound.unique
      have still : Loaded (s.updated ip) ip := ⟨loaded.used, loaded.valid, loaded.type⟩
      exact unique.node_loaded still
    · refine node_congr (fun _ => ⟨rfl, rfl⟩) (fun _ _ => ⟨rfl, rfl⟩) ?_
      exact Disk.dinode_setDinode_other _ here
  have data {c : Nat} (isData : s.sb.dataStart ≤ c) : (s.updated ip).disk c = s.disk c :=
    Disk.setDinode_data sound.layout small isData _
  have own : (s.updated ip).own = s.own := by
    funext ⟨i, x⟩
    have sb : (s.updated ip).sb = s.sb := rfl
    exact own_congr sb (node i) (fun c owns => data (sound.own_data owns).1) x
  have free := updated_free sound loaded.used
  refine ⟨⟨sound.layout, sound.unique, sound.inum_lt, ?_⟩, rfl, fun _ _ => rfl, rfl,
    fun i _ other => Disk.dinode_setDinode_other _ other, fun i _ x =>
      ⟨by rw [own], fun b owns => ?_⟩⟩
  · rw [own, free]
    exact sound.owned
  · exact data (sound.own_data owns).1

end Fields

/-! ## A block in a slot -/

/-- A free block `b`, which is zeros, has been put in the slot `x`. -/
structure Assigned (ip : Ip) (x : BlockSlot) (b : Nat) (s s' : State) : Prop where
  sb : s'.sb = s.sb
  others : ∀ e, e ≠ ip → s'.itable e = s.itable e
  copy : s'.itable ip = { s.itable ip with addrs := (s'.itable ip).addrs }
  dinode : ∀ i, i < s.sb.ninodes → s'.disk.dinode s.sb i = s.disk.dinode s.sb i
  free : s.freeBlocks = b ::ₘ s'.freeBlocks
  empty : s.number ip x = 0
  number : s'.number ip x = b
  number_other : ∀ y, y ≠ x → s'.number ip y = s.number ip y
  zero : s'.disk b = fun _ => 0
  other : ∀ c, s.sb.dataStart ≤ c → c ≠ b → c ≠ s.number ip indirectBlock → s'.disk c = s.disk c

section Assigned

variable {s s' : State} {ip : Ip} {b : Nat} {x : BlockSlot}

namespace Assigned

section

variable (new : Assigned ip x b s s')

include new

theorem mem : b ∈ s.freeBlocks := by
  rw [new.free]
  exact Multiset.mem_cons_self b _

theorem loaded (loaded : Loaded s ip) : Loaded s' ip := by
  have copy := new.copy
  refine ⟨?_, ?_, ?_⟩
  · rw [copy]
    exact loaded.used
  · rw [copy]
    exact loaded.valid
  · rw [copy]
    exact loaded.type

theorem refs (e : Ip) :
    (s'.itable e).ref = (s.itable e).ref ∧ (s'.itable e).inum = (s.itable e).inum := by
  by_cases same : e = ip
  · rw [same, new.copy]
    exact ⟨rfl, rfl⟩
  · rw [new.others e same]
    exact ⟨rfl, rfl⟩

theorem disk_foreign (sound : Sound s) (loaded : Loaded s ip)
    (other : (i, y) ≠ ((s.itable ip).inum, indirectBlock)) (owns : s.own (i, y) = some c) :
    s'.disk c = s.disk c := by
  refine new.other c (sound.own_data owns).1 ?_ ?_
  · rintro rfl
    exact sound.owned.outside owns new.mem
  · rintro rfl
    have nonzero : s.number ip indirectBlock ≠ 0 := (own_eq_some.mp owns).2.2.1
    exact other (sound.owned.inj owns (sound.own_number loaded nonzero))

theorem own_foreign (sound : Sound s) (loaded : Loaded s ip)
    (other : i ≠ (s.itable ip).inum) (y : BlockSlot) : s'.own (i, y) = s.own (i, y) := by
  refine own_congr new.sb (fun small => ?_) (fun c owns => ?_) y
  · exact node_other new.sb new.others (by rw [new.copy]) (new.dinode i small) other
  · refine new.disk_foreign sound loaded ?_ owns
    exact fun same => other (congrArg Prod.fst same)

theorem own (sound : Sound s) (loaded : Loaded s ip) :
    s'.own = update s.own ((s.itable ip).inum, x) (some b) := by
  have small := sound.inum_lt loaded.used
  have unique : s'.Unique := sound.unique.congr new.refs
  have nonzero := sound.free_ne_zero new.mem
  funext ⟨i, y⟩
  by_cases inode : i = (s.itable ip).inum
  · have inum : (s'.itable ip).inum = i := by rw [(new.refs ip).2, inode]
    have after := unique.own_loaded (x := y) (new.loaded loaded)
        (by rw [inum, inode, new.sb]; exact small)
    rw [inum] at after
    rw [after]
    by_cases slot : y = x
    · subst slot
      rw [inode, update_self, new.number, if_neg nonzero]
    · have differ : (i, y) ≠ ((s.itable ip).inum, x) := fun same => slot (congrArg Prod.snd same)
      rw [update_of_ne differ, new.number_other y slot, inode,
        sound.unique.own_loaded loaded small]
  · have differ : (i, y) ≠ ((s.itable ip).inum, x) := fun same => inode (congrArg Prod.fst same)
    rw [update_of_ne differ, new.own_foreign sound loaded inode]

theorem sound (sound : Sound s) (loaded : Loaded s ip) : Sound s' where
  layout := new.sb ▸ sound.layout
  unique := sound.unique.congr new.refs
  inum_lt {e} used := by
    rw [(new.refs e).1] at used
    rw [(new.refs e).2, new.sb]
    exact sound.inum_lt used
  owned := by
    have owned := sound.owned
    rw [new.free] at owned
    rw [new.own sound loaded, new.sb]
    exact owned.grant _ fun _ away => away

theorem grows (sound : Sound s) (loaded : Loaded s ip) :
    Grows ip s s' where
  sound := new.sound sound loaded
  sb := new.sb
  others := new.others
  copy := new.copy
  dinode := new.dinode
  kept y nonzero := by
    refine new.number_other y ?_
    rintro rfl
    exact nonzero new.empty
  foreign i other y := by
    refine ⟨new.own_foreign sound loaded other y, fun c owns => ?_⟩
    exact new.disk_foreign sound loaded (fun same => other (congrArg Prod.fst same)) owns
  free := by
    rw [new.free]
    exact Multiset.le_cons_self _ _
  data y notIndirect := by
    show (if s'.number ip y = 0 then _ else s'.disk (s'.number ip y)) =
      if s.number ip y = 0 then _ else s.disk (s.number ip y)
    by_cases slot : y = x
    · subst slot
      rw [if_pos new.empty, new.number, new.zero, ite_self]
    rw [new.number_other y slot]
    split
    · rfl
    · next nonzero =>
      refine new.disk_foreign sound loaded (y := y) ?_ (sound.own_number loaded nonzero)
      exact fun same => notIndirect (congrArg Prod.snd same)

end

end Assigned

theorem Allocated.setAddr (new : Allocated b s s1) (sound : Sound s) (loaded : Loaded s ip)
    (empty : s.number ip (.addr k) = 0) :
    Assigned ip (.addr k) b s
      (s1.modifyInode ip fun v => { v with addrs := update v.addrs k (UInt32.ofNat b) }) := by
  have small : b < 2 ^ 32 := by
    have := (sound.free_data new.mem).2
    have := sound.layout.size_lt
    omega
  have word : (UInt32.ofNat b).toNat = b := by
    rw [UInt32.toNat_ofNat', Nat.mod_eq_of_lt small]
  refine ⟨new.sb, fun e other => ?_, ?_, new.dinode, new.free, empty, ?_,
    fun y other => ?_, new.zero, fun c data other _ => new.other c data other⟩
  · rw [State.modifyInode_other _ _ other, new.itable]
  · rw [State.modifyInode_self, new.itable]
  · unfold State.number
    rw [State.modifyInode_self]
    exact (congrArg UInt32.toNat (update_self ..)).trans word
  unfold State.number
  rw [State.modifyInode_self, new.itable]
  cases y with
  | addr k' =>
    have differ : k' ≠ k := fun same => other (congrArg _ same)
    exact congrArg UInt32.toNat (update_of_ne differ ..)
  | entry j =>
    by_cases indirect : k = indirectSlot
    · -- the indirect block was not there, and the new one has no entries
      subst indirect
      have none := number_addr.mp empty
      have zeros : (s1.disk b).word j.val = 0 := by
        rw [new.zero]
        simp [Bytes.word, Bytes.byte]
      rw [Dinode.number_entry none, if_pos rfl, Dinode.number_entry
        (update_self indirectSlot (UInt32.ofNat b) (s.itable ip).addrs), word]
      split
      · rfl
      · exact zeros
    · have differ : indirectSlot ≠ k := fun same => indirect same.symm
      rw [Dinode.number_entry
        (update_of_ne differ (UInt32.ofNat b) (s.itable ip).addrs), Dinode.number_entry rfl]
      split
      · rfl
      rename_i nonzero
      have owns := sound.own_number (x := indirectBlock) loaded
        fun zero => nonzero (number_addr.mp zero)
      have kept : s1.disk (s.number ip indirectBlock) = s.disk (s.number ip indirectBlock) := by
        refine new.other _ (sound.own_data owns).1 ?_
        intro same
        exact sound.owned.outside owns (same ▸ new.mem)
      exact congrArg (fun c : Block => c.word j.val) kept

theorem Allocated.setEntry (new : Allocated b s s1) (sound : Sound s) (loaded : Loaded s ip)
    (there : s.number ip indirectBlock ≠ 0) (empty : s.number ip (.entry j) = 0) :
    Assigned ip (.entry j) b s (s1.logged (s.number ip indirectBlock)
      (s1.disk.set (s.number ip indirectBlock)
        ((s1.disk (s.number ip indirectBlock)).setWord j.val b))) := by
  have small : b < 2 ^ 32 := by
    have := (sound.free_data new.mem).2
    have := sound.layout.size_lt
    omega
  have owns := sound.own_number loaded there
  have differ : s.number ip indirectBlock ≠ b := by
    intro same
    exact sound.owned.outside owns (same ▸ new.mem)
  have isData := sound.own_data owns
  have kept := new.other _ isData.1 differ
  have nonzero : (s.itable ip).addrs indirectSlot ≠ 0 := fun zero => there (number_addr.mpr zero)
  refine ⟨new.sb, fun e _ => by rw [← new.itable]; rfl, ?_, fun i inum => ?_, ?_, empty, ?_,
    fun y other => ?_, ?_, fun c data other notIndirect => ?_⟩
  · show s1.itable ip = { s.itable ip with addrs := (s1.itable ip).addrs }
    rw [new.itable]
  · show (s1.disk.set _ _).dinode s.sb i = _
    rw [Disk.dinode_set sound.layout inum isData.1, new.dinode i inum]
  · rw [new.free]
    congr 1
    symm
    refine freeBlocks_congr rfl fun c inside => ?_
    show (s1.disk.set _ _).used s1.sb c = _
    rw [new.sb] at inside ⊢
    rw [Disk.used_set inside isData.1]
  · show (s1.itable ip).toDinode.number (s1.disk.set (s.number ip indirectBlock) _) (.entry j) = b
    rw [new.itable, Dinode.number_entry rfl, if_neg nonzero]
    show ((s1.disk.set _ _) (s.number ip indirectBlock)).word j.val = b
    have inside : 4 * j.val + 3 < BSIZE := by
      have := j.isLt
      unfold NINDIRECT at this
      omega
    rw [Disk.set_self, Bytes.word_setWord_self _ _ inside, Nat.mod_eq_of_lt small]
  · show (s1.itable ip).toDinode.number (s1.disk.set (s.number ip indirectBlock) _) y =
      (s.itable ip).toDinode.number s.disk y
    rw [new.itable]
    cases y with
    | addr k => rfl
    | entry j' =>
      have notHere : j'.val ≠ j.val := fun same => other (congrArg _ (Fin.ext same))
      rw [Dinode.number_entry rfl, Dinode.number_entry rfl, if_neg nonzero, if_neg nonzero]
      show ((s1.disk.set _ _) (s.number ip indirectBlock)).word j'.val =
        (s.disk (s.number ip indirectBlock)).word j'.val
      rw [Disk.set_self, Bytes.word_setWord_other _ _ notHere, kept]
  · show (s1.disk.set _ _) b = _
    rw [Disk.set_other _ _ differ.symm, new.zero]
  · show (s1.disk.set _ _) c = _
    rw [Disk.set_other _ _ notIndirect, new.other c data other]

end Assigned

/-! ## Slots that are filled -/

/-- The slot of block `bn` of an inode. -/
def blockSlot (bn : Nat) : Option BlockSlot :=
  if h : bn < NDIRECT then some (.addr ⟨bn, Nat.lt_succ_of_lt h⟩)
  else if h : bn - NDIRECT < NINDIRECT then some (.entry ⟨bn - NDIRECT, h⟩)
  else none

/-- The slots that have to be filled for a block in slot `x`. -/
def BlockSlot.needs : BlockSlot → Finset BlockSlot
  | .addr k => {.addr k}
  | .entry j => {indirectBlock, .entry j}

/-- The slots that block `bn` of an inode needs. -/
def slotsOf (bn : Nat) : Finset BlockSlot := ((blockSlot bn).map BlockSlot.needs).getD ∅

/-- How many of the slots have a block. -/
def State.filled (s : State) (ip : Ip) (T : Finset BlockSlot) : Nat :=
  (T.filter fun x => s.number ip x ≠ 0).card

/-- Free blocks have gone to slots of `T`, and blocks of `L` have been logged. -/
structure Fills (ip : Ip) (L : Set Nat) (T : Finset BlockSlot) (s s' : State) : Prop where
  traced : Traced L s s'
  number : ∀ x, s'.number ip x = s.number ip x ∨ x ∈ T ∧ s.number ip x = 0 ∧
    s'.number ip x ∈ s.freeBlocks ∧ s'.number ip x ∈ s'.log.block
  count : s'.freeBlocks.card + s'.filled ip T = s.freeBlocks.card + s.filled ip T

section Fills

variable {s s' s'' : State} {ip : Ip} {L L' : Set Nat} {T U : Finset BlockSlot} {x : BlockSlot}
  {b bn : Nat}

theorem slotsOf_eq (slot : blockSlot bn = some x) : slotsOf bn = x.needs := by
  unfold slotsOf
  rw [slot]
  rfl

theorem Fills.refl (s : State) : Fills ip L T s s := ⟨.refl s, fun _ => .inl rfl, rfl⟩

theorem Fills.mono (fills : Fills ip L T s s') (logs : L ⊆ L') (le : T ⊆ U) :
    Fills ip L' U s s' := by
  have split (s : State) : s.filled ip U = s.filled ip (U \ T) + s.filled ip T := by
    unfold State.filled
    rw [Finset.card_filter, Finset.card_filter, Finset.card_filter, Finset.sum_sdiff le]
  have rest : s'.filled ip (U \ T) = s.filled ip (U \ T) := by
    refine congrArg Finset.card (Finset.filter_congr fun x mem => ?_)
    rcases fills.number x with same | ⟨here, -⟩
    · rw [same]
    · exact absurd here (Finset.mem_sdiff.mp mem).2
  have count := fills.count
  refine ⟨fills.traced.mono logs, fun x => ?_, ?_⟩
  · exact (fills.number x).imp_right fun ⟨mem, rest⟩ => ⟨le mem, rest⟩
  · rw [split s, split s', rest]
    omega

theorem Fills.trans (first : Fills ip L T s s') (sound : Sound s)
    (free : s'.freeBlocks ≤ s.freeBlocks) (rest : Fills ip L T s' s'') : Fills ip L T s s'' where
  traced := first.traced.trans rest.traced
  number x := by
    rcases rest.number x with same | ⟨mem, zero, new, logged⟩
    · rcases first.number x with same' | ⟨mem, zero, new, logged⟩
      · exact .inl (same.trans same')
      · rw [← same] at new logged
        exact .inr ⟨mem, zero, new, rest.traced.sub logged⟩
    · rcases first.number x with same' | ⟨-, -, new', -⟩
      · exact .inr ⟨mem, same' ▸ zero, Multiset.mem_of_le free new, logged⟩
      · exact absurd zero (sound.free_ne_zero new')
  count := rest.count.trans first.count

theorem Fills.mapLogs (fills : Fills ip L T s s') (touches : Touches ip s s') :
    s'.mapLogs ip ⊆ s.mapLogs ip := by
  rintro b (fixed | free | indirect)
  · exact .inl (touches.sb ▸ fixed)
  · exact .inr (.inl (Multiset.mem_of_le touches.free free))
  · rcases fills.number indirectBlock with same | ⟨-, -, new, -⟩
    · exact .inr (.inr (indirect.trans same))
    · exact .inr (.inl (indirect ▸ new))

theorem Assigned.fills (new : Assigned ip x b s s') (sound : Sound s) (traced : Traced L s s')
    (logged : b ∈ s'.log.block) : Fills ip L {x} s s' where
  traced := traced
  number y := by
    by_cases here : y = x
    · rw [here, new.number]
      exact .inr ⟨Finset.mem_singleton_self x, new.empty, new.mem, logged⟩
    · exact .inl (new.number_other y here)
  count := by
    have nonzero := sound.free_ne_zero new.mem
    have after : s'.filled ip {x} = 1 := by
      unfold State.filled
      rw [Finset.filter_singleton, if_pos (by rw [new.number]; exact nonzero)]
      rfl
    have before : s.filled ip {x} = 0 := by
      unfold State.filled
      rw [Finset.filter_singleton, if_neg fun h => h new.empty]
      rfl
    rw [after, before, new.free, Multiset.card_cons, Nat.add_zero]

end Fills

/-! ## bmap -/

/-- The number in slot `x` has been found or made to be `addr`, which is 0 only if no block is
free. -/
structure Mapped (ip : Ip) (x : BlockSlot) (s : State) (addr : Nat) (s' : State) : Prop where
  grows : Grows ip s s'
  number : s'.number ip x = addr
  full : addr = 0 → s'.freeBlocks = 0

/-- The blocks in the log, with two more if the indirect block of `*ip` is not among them. -/
def State.weight (s : State) (ip : Ip) : Nat :=
  s.log.block.length +
    if s.number ip indirectBlock ≠ 0 ∧ s.number ip indirectBlock ∈ s.log.block then 0 else 2

/-- What `bmap` adds to the log: if it has allocated blocks, then `addr` is in the log. -/
def Charged (ip : Ip) (s : State) (addr : Nat) (s' : State) : Prop :=
  s' = s ∨ s'.log.outstanding = s.log.outstanding ∧ s.log.block ⊆ s'.log.block ∧
    s'.weight ip ≤ s.weight ip + 2 ∧ (addr ≠ 0 → addr ∈ s'.log.block)

section Bmap

variable {s : State} {ip : Ip} {b : Nat}

theorem bmapSlot_ends (sound : Sound s) (loaded : Loaded s ip) (k : AddrSlot) :
    (bmapSlot ip k).Ends (LogFails (s.log.block.length + 1) s)
      (fun addr s' => Mapped ip (.addr k) s addr s' ∧ Fills ip (s.mapLogs ip) {.addr k} s s' ∧
        (s' = s ∨ addr ≠ 0 ∧ Assigned ip (.addr k) addr s s' ∧ Logs 2 s s' ∧
          addr ∈ s'.log.block)) s := by
  refine .after_read ?_
  split
  · next zero =>
    have empty : s.number ip (.addr k) = 0 := number_addr.mpr zero
    refine (balloc_ends sound ip).bind fun addr s1 after => ?_
    rcases after with ⟨rfl, rfl, none⟩ | ⟨nonzero, new, logs, mem, traced⟩
    · exact ⟨⟨.refl sound ip, empty, fun _ => none⟩, .refl _, .inl rfl⟩
    · rw [if_neg nonzero]
      have assigned := new.setAddr sound loaded empty
      refine ⟨⟨assigned.grows sound loaded, assigned.number, fun zero => absurd zero nonzero⟩,
        assigned.fills sound ⟨traced.sub, traced.within, traced.changed⟩ mem, ?_⟩
      exact .inr ⟨nonzero, assigned, ⟨logs.outstanding, logs.sub, logs.length⟩, mem⟩
  · next nonzero =>
    refine ⟨⟨.refl sound ip, rfl, fun zero => ?_⟩, .refl s, .inl rfl⟩
    exact absurd (number_addr.mp zero) nonzero

theorem bmapEntry_ends (sound : Sound s) (loaded : Loaded s ip) (j : Fin NINDIRECT)
    (is : s.number ip indirectBlock = b) (there : b ≠ 0) :
    (bmapEntry b j.val).Ends (LogFails (s.log.block.length + 2) s)
      (fun addr s' => Mapped ip (.entry j) s addr s' ∧ Fills ip (s.mapLogs ip) {.entry j} s s' ∧
        (s' = s ∨ addr ≠ 0 ∧ addr ∈ s'.log.block ∧ b ∈ s'.log.block ∧
          ∃ n, Logs n s s' ∧ (n ≤ 2 ∨ b ∉ s.log.block ∧ n ≤ 3))) s := by
  have entry : s.number ip (.entry j) = (s.disk b).word j.val := by
    subst is
    exact number_entry there j
  refine .after_read ?_
  split
  · next zero =>
    refine ((balloc_ends sound ip).mono (fun e fails => fails.mono (Nat.le_succ _) rfl)
      fun _ _ h => h).bind fun addr s1 after => ?_
    rcases after with ⟨rfl, rfl, none⟩ | ⟨nonzero, new, logs, mem, traced⟩
    · exact ⟨⟨.refl sound ip, entry.trans zero, fun _ => none⟩, .refl _, .inl rfl⟩
    rw [if_neg nonzero]
    subst is
    have assigned := new.setEntry sound loaded there (entry.trans zero)
    refine after_store .other (fun e fails => fails.mono logs.length logs.outstanding.symm) ?_
    have more := logged_logs s1 (s.number ip indirectBlock)
      (s1.disk.set (s.number ip indirectBlock)
        ((s1.disk (s.number ip indirectBlock)).setWord j.val addr))
    refine ⟨⟨assigned.grows sound loaded, assigned.number, fun zero => absurd zero nonzero⟩,
      assigned.fills sound (traced.trans (logged_traced (.inr (.inr rfl)) _)) (more.sub mem), ?_⟩
    refine .inr ⟨nonzero, more.sub mem, logged_mem _ _ _, ?_⟩
    by_cases before : s.number ip indirectBlock ∈ s.log.block
    · exact ⟨2, logs.trans (logged_absorbs (logs.sub before)), .inl le_rfl⟩
    · exact ⟨3, logs.trans more, .inr ⟨before, le_rfl⟩⟩
  · next nonzero =>
    exact ⟨⟨.refl sound ip, entry, fun zero => absurd zero nonzero⟩, .refl s, .inl rfl⟩

theorem weight_le (kept : s.number ip indirectBlock ≠ 0 →
    s'.number ip indirectBlock = s.number ip indirectBlock) (logs : Logs n s s') :
    s'.weight ip ≤ s.weight ip + n := by
  have length := logs.length
  unfold State.weight
  by_cases before : s.number ip indirectBlock ≠ 0 ∧ s.number ip indirectBlock ∈ s.log.block
  · have after : s'.number ip indirectBlock ≠ 0 ∧ s'.number ip indirectBlock ∈ s'.log.block := by
      rw [kept before.1]
      exact ⟨before.1, logs.sub before.2⟩
    rw [if_pos before, if_pos after]
    omega
  · split <;> omega

theorem length_le_weight (s : State) (ip : Ip) : s.log.block.length ≤ s.weight ip :=
  Nat.le_add_right _ _

theorem bmap_ends (sound : Sound s) (loaded : Loaded s ip) (slot : blockSlot bn = some x) :
    (bmap ip bn).Ends (LogFails (s.weight ip + 2) s)
      (fun addr s' => Mapped ip x s addr s' ∧ Charged ip s addr s' ∧
        Fills ip (s.mapLogs ip) (slotsOf bn) s s' ∧
        (addr ≠ 0 → ∀ y ∈ slotsOf bn, s'.number ip y ≠ 0)) s := by
  have length := length_le_weight s ip
  rw [slotsOf_eq slot]
  unfold blockSlot at slot
  unfold bmap
  split
  · next direct =>
    rw [dif_pos direct] at slot
    cases slot
    refine (bmapSlot_ends sound loaded _).mono (fun e fails => fails.mono (by omega) rfl) ?_
    rintro addr s' ⟨mapped, fills, after⟩
    refine ⟨mapped, ?_, fills, fun there y mem => ?_⟩
    · rcases after with same | ⟨-, -, logs, mem⟩
      · exact .inl same
      · exact .inr ⟨logs.outstanding, logs.sub, weight_le (mapped.grows.kept _) logs, fun _ => mem⟩
    · rw [Finset.mem_singleton.mp mem, mapped.number]
      exact there
  · next notDirect =>
    rw [dif_neg notDirect] at slot
    split
    · next inside =>
      rw [dif_pos inside] at slot
      cases slot
      refine ((bmapSlot_ends sound loaded indirectSlot).mono
        (fun e fails => fails.mono (by omega) rfl) fun _ _ h => h).bind fun b s1 first => ?_
      obtain ⟨found, fills, after⟩ := first
      have fills : Fills ip (s.mapLogs ip) {indirectBlock, .entry ⟨bn - NDIRECT, inside⟩} s s1 :=
        fills.mono (Set.Subset.refl _)
          (Finset.singleton_subset_iff.mpr (Finset.mem_insert_self _ _))
      -- the indirect block is in the log now, or it was there and nothing has changed
      have light : s1.weight ip ≤ s.weight ip ∧ s1.log.outstanding = s.log.outstanding ∧
          s.log.block ⊆ s1.log.block := by
        rcases after with rfl | ⟨nonzero, new, logs, mem⟩
        · exact ⟨le_rfl, rfl, List.Subset.refl _⟩
        refine ⟨?_, logs.outstanding, logs.sub⟩
        have now : s1.number ip indirectBlock = b := found.number
        have before : s.number ip indirectBlock = 0 := new.empty
        have := logs.length
        unfold State.weight
        rw [now, before, if_pos ⟨nonzero, mem⟩, if_neg (fun h => h.1 rfl)]
        omega
      obtain ⟨weight, outstanding, sub⟩ := light
      split
      · next zero =>
        refine ⟨⟨found.grows, ?_, fun _ => found.full zero⟩, ?_, fills, fun h => absurd rfl h⟩
        · exact number_entry_none (found.number.trans zero) _
        · exact .inr ⟨outstanding, sub, by omega, fun h => absurd rfl h⟩
      rename_i there
      have sound1 := found.grows.sound
      have loaded1 := found.grows.loaded loaded
      have length1 := length_le_weight s1 ip
      refine (bmapEntry_ends sound1 loaded1 ⟨bn - NDIRECT, inside⟩ found.number there).mono
        (fun e fails => fails.mono (by omega) outstanding.symm) ?_
      rintro addr s2 ⟨mapped, fills', later⟩
      have now : s2.number ip indirectBlock = b := by
        rw [mapped.grows.kept _ (found.number.symm ▸ there)]
        exact found.number
      refine ⟨⟨found.grows.trans mapped.grows, mapped.number, mapped.full⟩, ?_,
        fills.trans sound found.grows.free (fills'.mono (fills.mapLogs found.grows.toTouches)
          (Finset.subset_insert _ _)), fun nonzero y mem => ?_⟩
      rotate_left
      · rcases Finset.mem_insert.mp mem with rfl | entry
        · exact now.symm ▸ there
        · rw [Finset.mem_singleton.mp entry, mapped.number]
          exact nonzero
      rcases later with rfl | ⟨nonzero, mem, indirect, n, logs, bound⟩
      · rcases after with same | ⟨-, new, -, -⟩
        · exact .inl same
        · -- a new indirect block has no entries
          refine .inr ⟨outstanding, sub, by omega, fun nonzero => absurd ?_ nonzero⟩
          rw [← mapped.number, new.number_other (.entry ⟨bn - NDIRECT, inside⟩) nofun]
          exact number_entry_none new.empty _
      · refine .inr ⟨logs.outstanding.trans outstanding, fun c h => logs.sub (sub h), ?_,
          fun _ => mem⟩
        rcases bound with few | ⟨notBefore, more⟩
        · have := weight_le (mapped.grows.kept _) logs
          omega
        have before : s1.number ip indirectBlock = b := found.number
        have := logs.length
        have heavy : s1.weight ip = s1.log.block.length + 2 := by
          unfold State.weight
          rw [before, if_neg fun h => notBefore h.2]
        have light : s2.weight ip = s2.log.block.length := by
          unfold State.weight
          rw [now, if_pos ⟨there, indirect⟩]
          rfl
        omega
    · next outside =>
      rw [dif_neg outside] at slot
      cases slot

end Bmap

end Xv6.Fs
