import Mathlib.Data.List.TakeWhile
import Mathlib.Order.Interval.Finset.Nat
import Xv6.Fs.Alloc

/-!
# The content of an inode

An inode is an array of `size` bytes, which `bmap` spreads over blocks. `readi` returns a
slice of it, and `writei` replaces one, from the offset on as far as there are blocks to be
had and the source can be read. Both leave all other inodes alone.
-/

namespace Xv6.Fs

open Log (BSIZE Block LOGBLOCKS)
open Ownership (Owned)
open List (length_range mem_range)

/-- Byte `p` of an inode, 0 where it has no block. -/
def Dinode.byteAt (v : Dinode) (disk : Disk) (p : Nat) : UInt8 :=
  match blockSlot (p / BSIZE) with
  | some x => v.data disk x ⟨p % BSIZE, Nat.mod_lt _ (by decide)⟩
  | none => 0

def Dinode.content (v : Dinode) (disk : Disk) : List UInt8 :=
  (List.range v.size.toNat).map (v.byteAt disk)

/-- There are blocks for all the bytes of the inode. -/
def Dinode.Full (v : Dinode) (disk : Disk) : Prop :=
  ∀ bn, bn * BSIZE < v.size.toNat → ∃ x, blockSlot bn = some x ∧ v.number disk x ≠ 0

def State.byteAt (s : State) (ip : Ip) (p : Nat) : UInt8 := (s.itable ip).toDinode.byteAt s.disk p

/-! ## Slots -/

section Slots

variable {bn bn' p : Nat} {x : BlockSlot}

theorem blockSlot_inj (here : blockSlot bn = some x) (there : blockSlot bn' = some x) :
    bn = bn' := by
  unfold blockSlot at here there
  split at here
  · split at there
    · cases here
      cases there
      rfl
    · split at there
      · cases here
        cases there
      · cases there
  · split at there
    · split at here <;> cases here
      cases there
    split at here
    · split at there
      · cases here
        injection there with same
        injection same with same
        have : bn' - NDIRECT = bn - NDIRECT := congrArg Fin.val same
        omega
      · cases there
    · cases here

theorem blockSlot_ne_indirect (slot : blockSlot bn = some x) : x ≠ indirectBlock := by
  unfold blockSlot at slot
  split at slot
  · next direct =>
    cases slot
    intro same
    injection same with same
    have : bn = NDIRECT := congrArg Fin.val same
    omega
  · split at slot <;> cases slot
    exact nofun

theorem blockSlot_of_lt (small : bn < MAXFILE) : ∃ x, blockSlot bn = some x := by
  unfold blockSlot
  split
  · exact ⟨_, rfl⟩
  split
  · exact ⟨_, rfl⟩
  · next h =>
    unfold MAXFILE at small
    omega

theorem Dinode.byteAt_of_data {v v' : Dinode}
    (same : ∀ x, x ≠ indirectBlock → v'.data disk' x = v.data disk x) (p : Nat) :
    v'.byteAt disk' p = v.byteAt disk p := by
  unfold Dinode.byteAt
  split
  · next x slot => exact congrFun (same x (blockSlot_ne_indirect slot)) _
  · rfl

theorem byteAt_eq {v : Dinode} (slot : blockSlot (p / BSIZE) = some x) :
    v.byteAt disk p = v.data disk x ⟨p % BSIZE, Nat.mod_lt _ (by decide)⟩ := by
  unfold Dinode.byteAt
  rw [slot]

end Slots

/-! ## Reading -/

section Read

variable {s : State} {ip : Ip} {E : Option Panic → Prop}

theorem bmap_found (slot : blockSlot bn = some x) (there : s.number ip x ≠ 0) :
    (bmap ip bn).Ends E (fun addr s' => addr = s.number ip x ∧ s' = s) s := by
  have found {k : AddrSlot} (nonzero : s.number ip (.addr k) ≠ 0) :
      (bmapSlot ip k).Ends E (fun addr s' => addr = s.number ip (.addr k) ∧ s' = s) s := by
    refine .after_read ?_
    rw [if_neg fun zero => nonzero (number_addr.mpr zero)]
    exact ⟨rfl, rfl⟩
  unfold blockSlot at slot
  unfold bmap
  split
  · next direct =>
    rw [dif_pos direct] at slot
    cases slot
    exact found there
  rename_i notDirect
  rw [dif_neg notDirect] at slot
  split
  · next inside =>
    rw [dif_pos inside] at slot
    cases slot
    have indirect : s.number ip indirectBlock ≠ 0 := fun zero =>
      there (number_entry_none zero _)
    have entry := number_entry indirect ⟨bn - NDIRECT, inside⟩
    refine (found indirect).bind ?_
    rintro b s' ⟨rfl, rfl⟩
    rw [if_neg indirect]
    refine .after_read ?_
    rw [if_neg fun zero => there (entry.trans zero)]
    exact ⟨entry.symm, rfl⟩
  · next outside =>
    rw [dif_neg outside] at slot
    cases slot

theorem slice_eq {off m : Nat} (slot : blockSlot (off / BSIZE) = some x)
    (there : s.number ip x ≠ 0) (inside : off % BSIZE + m ≤ BSIZE) :
    (s.disk (s.number ip x)).slice (off % BSIZE) m =
      (List.range m).map fun j => s.byteAt ip (off + j) := by
  refine List.map_congr_left fun j mem => ?_
  have small : j < m := mem_range.mp mem
  have block : (off + j) / BSIZE = off / BSIZE := by
    unfold BSIZE at inside ⊢
    omega
  have place : (off + j) % BSIZE = off % BSIZE + j := by
    unfold BSIZE at inside ⊢
    omega
  have byte : (s.disk (s.number ip x)).byte (off % BSIZE + j) =
      (s.disk (s.number ip x) ⟨off % BSIZE + j, by omega⟩).toNat := dif_pos (by omega)
  rw [byte, UInt8.ofNat_toNat]
  unfold State.byteAt
  rw [byteAt_eq (block.symm ▸ slot)]
  show _ = (if s.number ip x = 0 then _ else s.disk (s.number ip x)) _
  rw [if_neg there]
  congr 1
  exact Fin.ext place.symm

theorem range_append {α : Type} (f : Nat → α) (off a b : Nat) :
    ((List.range a).map fun j => f (off + j)) ++ ((List.range b).map fun j => f (off + a + j)) =
      (List.range (a + b)).map fun j => f (off + j) := by
  rw [List.range_add, List.map_append, List.map_map]
  congr 1
  refine List.map_congr_left fun j _ => ?_
  rw [Function.comp_apply, Nat.add_assoc]

theorem slice_range {α : Type} (f : Nat → α) (size off n : Nat) :
    ((((List.range size).map f).drop off).take n) =
      (List.range (min n (size - off))).map fun j => f (off + j) := by
  refine List.ext_getElem (by simp) fun j _ _ => ?_
  simp

/-- The loop of `readi`, which has read the bytes from `off` on. Nothing changes, also if the
destination cannot be written. -/
theorem readLoop_ends
    (blocks : ∀ bn, bn * BSIZE < off + n → ∃ x, blockSlot bn = some x ∧ s.number ip x ≠ 0)
    (fuel got : Nat) (le : got ≤ n) (enough : n ≤ got + fuel) :
    (readLoop ip dst n fuel (off + got) ((List.range got).map fun j =>
      s.byteAt ip (off + j))).Ends E (fun r s' => s' = s ∧ ((∀ j < n, dst j = true) →
        r = some ((List.range n).map fun j => s.byteAt ip (off + j)))) s := by
  induction fuel generalizing got with
  | zero =>
    have : got = n := by omega
    subst this
    exact ⟨rfl, fun _ => rfl⟩
  | succ fuel ih =>
    unfold readLoop
    rw [List.length_map, length_range]
    split
    · next more =>
      have start : (off + got) / BSIZE * BSIZE ≤ off + got := Nat.div_mul_le_self _ _
      obtain ⟨x, slot, there⟩ := blocks ((off + got) / BSIZE) (by omega)
      refine (bmap_found slot there).bind ?_
      rintro addr s' ⟨rfl, rfl⟩
      rw [if_neg there]
      refine .after_read ?_
      have small : (off + got) % BSIZE < BSIZE := Nat.mod_lt _ (by decide)
      generalize size : min (n - got) (BSIZE - (off + got) % BSIZE) = m
      have room : (off + got) % BSIZE + m ≤ BSIZE := by omega
      have fits : got + m ≤ n := by omega
      dsimp only
      split
      · rw [slice_eq slot there room, range_append, Nat.add_assoc off got m]
        exact ih _ fits (by omega)
      · next closed =>
        refine ⟨rfl, fun open_ => absurd (List.all_eq_true.mpr fun j mem => open_ _ ?_) closed⟩
        have := mem_range.mp mem
        omega
    · next done =>
      have : got = n := by omega
      subst this
      exact ⟨rfl, fun _ => rfl⟩

theorem readi_blocks
    (blocks : ∀ bn, bn * BSIZE < off + n → bn * BSIZE < (s.itable ip).size.toNat →
      ∃ x, blockSlot bn = some x ∧ s.number ip x ≠ 0)
    (start : off ≤ (s.itable ip).size.toNat) (small : off + n < 2 ^ 32) :
    (readi ip dst off n).Ends E (fun r s' => s' = s ∧
      ((∀ j < min n ((s.itable ip).size.toNat - off), dst j = true) →
        r = some (((s.itable ip).toDinode.content s.disk).drop off |>.take n))) s := by
  refine .after_read ?_
  rw [if_neg (by omega)]
  generalize least : min n ((s.itable ip).size.toNat - off) = m
  have there (bn : Nat) (below : bn * BSIZE < off + m) :
      ∃ x, blockSlot bn = some x ∧ s.number ip x ≠ 0 := blocks bn (by omega) (by omega)
  refine (readLoop_ends (E := E) there m 0 (Nat.zero_le _) (by omega)).imp ?_
  rintro r s' ⟨same, read⟩
  refine ⟨same, fun open_ => (read open_).trans (congrArg some ?_)⟩
  subst least
  exact (slice_range _ _ _ _).symm

theorem readi_ends (full : (s.itable ip).toDinode.Full s.disk)
    (open_ : ∀ j < min n ((s.itable ip).size.toNat - off), dst j = true)
    (start : off ≤ (s.itable ip).size.toNat) (small : off + n < 2 ^ 32) :
    (readi ip dst off n).Ends E (fun r s' => s' = s ∧
      r = some (((s.itable ip).toDinode.content s.disk).drop off |>.take n)) s :=
  (readi_blocks (fun bn _ => full bn) start small).imp fun _ _ ⟨same, read⟩ => ⟨same, read open_⟩

theorem readi_stays (full : (s.itable ip).toDinode.Full s.disk) (dst : Nat → Bool) (off n : Nat) :
    (readi ip dst off n).Ends E (fun _ s' => s' = s) s := by
  by_cases bad : off > (s.itable ip).size.toNat ∨ off + n ≥ 2 ^ 32
  · refine .after_read ?_
    rw [if_pos bad]
    exact rfl
  · exact (readi_blocks (fun bn _ => full bn) (by omega) (by omega)).imp fun _ _ after => after.1

end Read

/-! ## Writing to a block -/

/-- The block in slot `x` of `*ip` has become `block`. -/
structure Overwrites (ip : Ip) (x : BlockSlot) (block : Block) (s s' : State) : Prop where
  sb : s'.sb = s.sb
  itable : s'.itable = s.itable
  disk : s'.disk = s.disk.set (s.number ip x) block

section Overwrite

variable {s s' : State} {ip : Ip} {x : BlockSlot} {block : Block}

namespace Overwrites

section

variable (writes : Overwrites ip x block s s')

include writes

variable (sound : Sound s) (loaded : Loaded s ip) (there : s.number ip x ≠ 0)

include sound loaded there

theorem disk_other (owns : s.own y = some c) (other : y ≠ ((s.itable ip).inum, x)) :
    s'.disk c = s.disk c := by
  rw [writes.disk]
  refine Disk.set_other _ _ ?_
  rintro rfl
  exact other (sound.owned.inj owns (sound.own_number loaded there))

theorem number (content : x ≠ indirectBlock) (y : BlockSlot) :
    s'.number ip y = s.number ip y := by
  unfold State.number
  rw [writes.itable]
  refine Dinode.number_congr (fun nonzero => ?_) y
  have indirect : s.number ip indirectBlock ≠ 0 := fun zero => nonzero (number_addr.mp zero)
  refine writes.disk_other sound loaded there (sound.own_number loaded indirect) ?_
  exact fun same => content (congrArg Prod.snd same).symm

theorem dinode (small : i < s.sb.ninodes) :
    s'.disk.dinode s.sb i = s.disk.dinode s.sb i := by
  rw [writes.disk]
  exact Disk.dinode_set sound.layout small (sound.own_data (sound.own_number loaded there)).1 _

theorem own (content : x ≠ indirectBlock) (y : Nat × BlockSlot) :
    s'.own y = s.own y := by
  obtain ⟨i, y⟩ := y
  refine own_congr writes.sb (fun small => ?_) (fun c owns => ?_) y
  · refine node_congr (fun e => ?_) (fun e _ => ?_) ?_
    · rw [writes.itable]
      exact ⟨rfl, rfl⟩
    · rw [writes.itable]
      exact ⟨rfl, rfl⟩
    · rw [writes.sb]
      exact writes.dinode sound loaded there small
  · refine writes.disk_other sound loaded there owns ?_
    exact fun same => content (congrArg Prod.snd same).symm

theorem free : s'.freeBlocks = s.freeBlocks := by
  have isData := (sound.own_data (sound.own_number loaded there)).1
  refine freeBlocks_congr writes.sb fun c inside => ?_
  rw [writes.disk, Disk.used_set inside isData]

theorem touches (content : x ≠ indirectBlock) : Touches ip s s' := by
  have free := writes.free sound loaded there
  have own : s'.own = s.own := funext (writes.own sound loaded there content)
  refine ⟨⟨writes.sb ▸ sound.layout, ?_, ?_, ?_⟩, writes.sb,
    fun e _ => by rw [writes.itable], ?_, ?_, ?_,
    fun i other y => ⟨by rw [own], fun b owns => ?_⟩, free.le⟩
  · refine sound.unique.congr fun e => ?_
    rw [writes.itable]
    exact ⟨rfl, rfl⟩
  · rw [writes.itable, writes.sb]
    exact sound.inum_lt
  · rw [free, own, writes.sb]
    exact sound.owned
  · rw [writes.itable]
  · exact fun i small => writes.dinode sound loaded there small
  · exact fun y _ => writes.number sound loaded there content y
  · exact writes.disk_other sound loaded there owns fun same => other (congrArg Prod.fst same)

theorem data_self (content : x ≠ indirectBlock) : s'.data ip x = block := by
  have number := writes.number sound loaded there content x
  show (if s'.number ip x = 0 then _ else s'.disk (s'.number ip x)) = block
  rw [number, if_neg there, writes.disk, Disk.set_self]

theorem data_other (content : x ≠ indirectBlock) (other : y ≠ x) :
    s'.data ip y = s.data ip y := by
  have number := writes.number sound loaded there content y
  show (if s'.number ip y = 0 then _ else s'.disk (s'.number ip y)) =
    if s.number ip y = 0 then _ else s.disk (s.number ip y)
  rw [number]
  split
  · rfl
  · next nonzero =>
    refine writes.disk_other sound loaded there (sound.own_number loaded nonzero) ?_
    exact fun same => other (congrArg Prod.snd same)

end

end Overwrites

end Overwrite

/-! ## The loop of `writei` -/

/-- How many blocks the `n` bytes from `off` on are in. -/
def spans (off n : Nat) : Nat := if n = 0 then 0 else (off + n - 1) / BSIZE - off / BSIZE + 1

theorem spans_step (off : Nat) (more : 0 < n) (least : min n (BSIZE - off % BSIZE) = m) :
    spans off n = spans (off + m) (n - m) + 1 := by
  unfold spans
  unfold BSIZE at least ⊢
  rw [if_neg (by omega)]
  split
  · omega
  · omega

/-- The bytes from `off` on are the first `tot` of the source; the others are as they were. -/
structure Wrote (ip : Ip) (off : Nat) (src : Nat → Option UInt8) (tot : Nat) (s s' : State) : Prop
    extends Touches ip s s' where
  bytes : ∀ p, s'.byteAt ip p =
    if off ≤ p ∧ p < off + tot then (src (p - off)).getD 0 else s.byteAt ip p
  mapped : ∀ p, off ≤ p → p < off + tot →
    ∃ x, blockSlot (p / BSIZE) = some x ∧ s'.number ip x ≠ 0

section Write

variable {s s1 s' : State} {ip : Ip} {src : Nat → Option UInt8} {off n tot m : Nat} {x : BlockSlot}

theorem byteAt_of_data (same : ∀ x, x ≠ indirectBlock → s'.data ip x = s.data ip x) (p : Nat) :
    s'.byteAt ip p = s.byteAt ip p :=
  Dinode.byteAt_of_data same p

theorem Overwrites.bytes {f : Nat → UInt8}
    (writes : Overwrites ip x ((s.disk (s.number ip x)).fill (off % BSIZE) m f) s s')
    (sound : Sound s) (loaded : Loaded s ip) (slot : blockSlot (off / BSIZE) = some x)
    (there : s.number ip x ≠ 0) (room : off % BSIZE + m ≤ BSIZE) (p : Nat) :
    s'.byteAt ip p = if off ≤ p ∧ p < off + m then f (p - off) else s.byteAt ip p := by
  have content := blockSlot_ne_indirect slot
  unfold State.byteAt
  by_cases same : p / BSIZE = off / BSIZE
  · have here : blockSlot (p / BSIZE) = some x := same ▸ slot
    have before : s.data ip x = s.disk (s.number ip x) := if_neg there
    rw [byteAt_eq here, byteAt_eq here]
    show s'.data ip x _ = if _ then _ else s.data ip x _
    rw [writes.data_self sound loaded there content, before]
    unfold Bytes.fill
    dsimp only
    unfold BSIZE at same room ⊢
    split
    · rw [if_pos (by omega)]
      congr 1
      omega
    · rw [if_neg (by omega)]
  · have outside : ¬ (off ≤ p ∧ p < off + m) := by
      unfold BSIZE at same room
      omega
    rw [if_neg outside]
    unfold Dinode.byteAt
    split
    · next y there' =>
      refine congrFun (writes.data_other sound loaded there content ?_) _
      rintro rfl
      exact same (blockSlot_inj there' slot)
    · rfl

theorem Wrote.refl (sound : Sound s) (ip : Ip) (off : Nat) (src : Nat → Option UInt8) :
    Wrote ip off src 0 s s :=
  { Touches.refl sound ip with
    bytes := fun p => (if_neg (by omega)).symm
    mapped := fun p low high => by omega }

theorem Wrote.grow (wrote : Wrote ip off src tot s s1) (grows : Grows ip s1 s') :
    Wrote ip off src tot s s' :=
  { wrote.toTouches.trans grows.toTouches with
    bytes := fun p => (byteAt_of_data grows.data p).trans (wrote.bytes p)
    mapped := fun p low high => by
      obtain ⟨x, slot, there⟩ := wrote.mapped p low high
      refine ⟨x, slot, ?_⟩
      rw [grows.kept x there]
      exact there }

theorem Wrote.more (wrote : Wrote ip off src tot s s1) (loaded : Loaded s1 ip)
    (slot : blockSlot ((off + tot) / BSIZE) = some x) (there : s1.number ip x ≠ 0)
    (room : (off + tot) % BSIZE + m ≤ BSIZE)
    (writes : Overwrites ip x ((s1.disk (s1.number ip x)).fill ((off + tot) % BSIZE) m
      fun j => (src (tot + j)).getD 0) s1 s') : Wrote ip off src (tot + m) s s' := by
  have content := blockSlot_ne_indirect slot
  have touches := writes.touches wrote.sound loaded there content
  refine { wrote.toTouches.trans touches with bytes := fun p => ?_, mapped := fun p low high => ?_ }
  · rw [writes.bytes wrote.sound loaded slot there room, wrote.bytes]
    by_cases new : off + tot ≤ p ∧ p < off + tot + m
    · rw [if_pos new, if_pos (by omega)]
      congr 2
      omega
    · rw [if_neg new]
      by_cases old : off ≤ p ∧ p < off + tot
      · rw [if_pos old, if_pos (by omega)]
      · rw [if_neg old, if_neg (by omega)]
  · by_cases old : p < off + tot
    · obtain ⟨y, slot', there'⟩ := wrote.mapped p low old
      refine ⟨y, slot', ?_⟩
      rw [touches.kept y there']
      exact there'
    have same : p / BSIZE = (off + tot) / BSIZE := by
      unfold BSIZE at room ⊢
      omega
    refine ⟨x, same ▸ slot, ?_⟩
    rw [touches.kept x there]
    exact there

end Write

/-! ## The source -/

section Readable

variable {src : Nat → Option UInt8} {tot m n : Nat}

theorem readable_le (src : Nat → Option UInt8) (tot m : Nat) : readable src tot m ≤ m := by
  have := (List.takeWhile_sublist (l := List.range m)
    fun j => (src (tot + j)).isSome).length_le
  rwa [length_range] at this

theorem readable_all (all : ∀ j < m, (src (tot + j)).isSome) : readable src tot m = m := by
  unfold readable
  rw [List.takeWhile_eq_self_iff.mpr, length_range]
  exact fun j mem => all j (mem_range.mp mem)

theorem readable_succ (src : Nat → Option UInt8) (tot m : Nat) :
    readable src tot (m + 1) =
      if readable src tot m = m ∧ (src (tot + m)).isSome then m + 1 else readable src tot m := by
  unfold readable
  rw [List.range_succ, List.takeWhile_append, length_range]
  by_cases all : ((List.range m).takeWhile fun j => (src (tot + j)).isSome).length = m
  · rw [if_pos all, List.length_append, length_range]
    by_cases last : (src (tot + m)).isSome
    · rw [List.takeWhile_cons, if_pos last, if_pos ⟨all, last⟩]
      rfl
    · rw [List.takeWhile_cons, if_neg last, if_neg fun h => last h.2, all]
      rfl
  · rw [if_neg all, if_neg fun h => all h.1]

theorem readable_spec (src : Nat → Option UInt8) (tot m : Nat) :
    (∀ j < readable src tot m, (src (tot + j)).isSome) ∧
      (readable src tot m < m → src (tot + readable src tot m) = none) := by
  induction m with
  | zero => exact ⟨fun j below => absurd below (Nat.not_lt_zero j),
      fun below => absurd below (by omega)⟩
  | succ m ih =>
    rw [readable_succ]
    split
    · next both =>
      refine ⟨fun j below => ?_, fun below => absurd below (Nat.lt_irrefl _)⟩
      by_cases last : j = m
      · rw [last]
        exact both.2
      · exact ih.1 j (by omega)
    · next stops =>
      refine ⟨ih.1, fun _ => ?_⟩
      by_cases all : readable src tot m = m
      · rw [all]
        exact Option.not_isSome_iff_eq_none.mp fun there => stops ⟨all, there⟩
      · exact ih.2 (by omega)

theorem readable_cut (past : tot ≤ readable src 0 n) (fits : tot + m ≤ n)
    (less : readable src tot m < m) : readable src 0 n = tot + readable src tot m := by
  obtain ⟨there, none⟩ := readable_spec src 0 n
  obtain ⟨there', none'⟩ := readable_spec src tot m
  have none' := none' less
  rcases Nat.lt_trichotomy (readable src 0 n) (tot + readable src tot m) with below | is | above
  · have here := there' (readable src 0 n - tot) (by omega)
    rw [show tot + (readable src 0 n - tot) = 0 + readable src 0 n by omega,
      none (by omega)] at here
    cases here
  · exact is
  · have here := there _ above
    rw [Nat.zero_add, none'] at here
    cases here

theorem readable_past (past : tot ≤ readable src 0 n) (fits : tot + m ≤ n)
    (all : readable src tot m = m) : tot + m ≤ readable src 0 n := by
  obtain ⟨-, none⟩ := readable_spec src 0 n
  obtain ⟨there', -⟩ := readable_spec src tot m
  by_contra less
  have here := there' (readable src 0 n - tot) (by omega)
  rw [show tot + (readable src 0 n - tot) = 0 + readable src 0 n by omega, none (by omega)] at here
  cases here

end Readable

/-! ## How the loop ends -/

/-- The slots that the blocks from `a` on and before `b` need. -/
def slotsTo (a b : Nat) : Finset BlockSlot := (Finset.Ico a b).biUnion slotsOf

/-- The blocks that the loop of `writei` has logged when the slots of `T` are filled. -/
def State.pathLogs (s : State) (ip : Ip) (T : Finset BlockSlot) : Set Nat :=
  {b | b ∈ s.mapLogs ip ∨ ∃ x ∈ T, s.number ip x = b}

/-- The first block after the `tot` bytes that have been written. -/
def reached (off tot : Nat) : Nat := off / BSIZE + spans off tot

/-- What the loop has done when it has written `tot` bytes. -/
structure Advances (ip : Ip) (off : Nat) (src : Nat → Option UInt8) (tot : Nat) (s s' : State) :
    Prop extends Wrote ip off src tot s s' where
  fills : Fills ip (s.pathLogs ip (slotsTo (off / BSIZE) (reached off tot)))
    (slotsTo (off / BSIZE) (reached off tot)) s s'
  all : ∀ x ∈ slotsTo (off / BSIZE) (reached off tot), s'.number ip x ≠ 0

inductive Ending (ip : Ip) (off : Nat) (src : Nat → Option UInt8) (n : Nat) (s : State) :
    Nat → State → Prop
  | done {s' : State} (all : readable src 0 n = n) (advances : Advances ip off src n s s') :
      Ending ip off src n s n s'
  /-- There is no block for the next byte. -/
  | full {s' : State} {t : Nat} {x : BlockSlot} (past : t ≤ readable src 0 n) (less : t < n)
      (slot : blockSlot ((off + t) / BSIZE) = some x) (none : s'.number ip x = 0)
      (free : s'.freeBlocks = 0) (wrote : Wrote ip off src t s s')
      (fills : Fills ip (s.pathLogs ip (slotsTo (off / BSIZE) ((off + t) / BSIZE)))
        (slotsTo (off / BSIZE) ((off + t) / BSIZE + 1)) s s') :
      Ending ip off src n s t s'
  /-- The source cannot be read. The bytes before are in the buffer, which is not logged. -/
  | cut {s1 s' : State} {t : Nat} {x : BlockSlot} {block : Block} (past : t ≤ readable src 0 n)
      (less : readable src 0 n < n) (same : (off + readable src 0 n) / BSIZE = (off + t) / BSIZE)
      (start : t = 0 ∨ (off + t) % BSIZE = 0) (slot : blockSlot ((off + t) / BSIZE) = some x)
      (fills : Fills ip (s.pathLogs ip (slotsTo (off / BSIZE) ((off + t) / BSIZE)))
        (slotsTo (off / BSIZE) ((off + t) / BSIZE + 1)) s s1)
      (all : ∀ y ∈ slotsTo (off / BSIZE) ((off + t) / BSIZE + 1), s1.number ip y ≠ 0)
      (writes : Overwrites ip x block s1 s') (log : s'.log = s1.log)
      (number : ∀ y, s'.number ip y = s1.number ip y)
      (wrote : Wrote ip off src (readable src 0 n) s s') :
      Ending ip off src n s t s'

section Loop

variable {s s1 s' : State} {ip : Ip} {src : Nat → Option UInt8} {off n tot m t bn : Nat}
  {x : BlockSlot} {T U : Finset BlockSlot}

theorem slotsOf_mem (slot : blockSlot bn = some x) : x ∈ slotsOf bn := by
  rw [slotsOf_eq slot]
  cases x with
  | addr k => exact Finset.mem_singleton_self _
  | entry j => exact Finset.mem_insert_of_mem (Finset.mem_singleton_self _)

theorem slotsOf_other (mem : x ∈ slotsOf bn) (content : x ≠ indirectBlock) :
    blockSlot bn = some x := by
  cases slot : blockSlot bn with
  | none =>
    unfold slotsOf at mem
    rw [slot] at mem
    exact absurd mem (Finset.notMem_empty x)
  | some y =>
    rw [slotsOf_eq slot] at mem
    cases y with
    | addr k => rw [Finset.mem_singleton.mp mem]
    | entry j =>
      rcases Finset.mem_insert.mp mem with indirect | entry
      · exact absurd indirect content
      · rw [Finset.mem_singleton.mp entry]

theorem slotsTo_succ (le : a ≤ b) : slotsTo a (b + 1) = slotsTo a b ∪ slotsOf b := by
  unfold slotsTo
  rw [Nat.Ico_succ_right_eq_insert_Ico le, Finset.biUnion_insert, Finset.union_comm]

theorem slotsTo_mem (slot : blockSlot bn = some x) (low : a ≤ bn) (high : bn < b) :
    x ∈ slotsTo a b :=
  Finset.mem_biUnion.mpr ⟨bn, Finset.mem_Ico.mpr ⟨low, high⟩, slotsOf_mem slot⟩

theorem slotsTo_mono (le : b ≤ c) : slotsTo a b ⊆ slotsTo a c :=
  Finset.biUnion_subset_biUnion_of_subset_left _ (Finset.Ico_subset_Ico_right le)

theorem State.pathLogs_mono (s : State) (ip : Ip) (le : T ⊆ U) :
    s.pathLogs ip T ⊆ s.pathLogs ip U := by
  rintro b (map | ⟨x, mem, is⟩)
  · exact .inl map
  · exact .inr ⟨x, le mem, is⟩

theorem reached_eq (aligned : tot = 0 ∨ (off + tot) % BSIZE = 0) :
    reached off tot = (off + tot) / BSIZE := by
  unfold reached spans
  unfold BSIZE at aligned ⊢
  split
  · next zero => rw [zero, Nat.add_zero, Nat.add_zero]
  · next some => omega

theorem reached_step (more : tot < n) (least : min (n - tot) (BSIZE - (off + tot) % BSIZE) = m) :
    reached off (tot + m) = (off + tot) / BSIZE + 1 := by
  unfold reached spans
  unfold BSIZE at least ⊢
  rw [if_neg (by omega)]
  omega

theorem Advances.start (sound : Sound s) (ip : Ip) (off : Nat) (src : Nat → Option UInt8) :
    Advances ip off src 0 s s := by
  have none : slotsTo (off / BSIZE) (reached off 0) = ∅ := by
    unfold reached spans slotsTo
    rw [if_pos rfl, Nat.add_zero, Finset.Ico_self]
    rfl
  refine { Wrote.refl sound ip off src with fills := .refl s, all := fun x mem => ?_ }
  rw [none] at mem
  exact absurd mem (Finset.notMem_empty x)

theorem Overwrites.fills {disk : Disk}
    (writes : Overwrites ip x block s (s.logged (s.number ip x) disk)) (sound : Sound s)
    (loaded : Loaded s ip) (there : s.number ip x ≠ 0) (content : x ≠ indirectBlock)
    (mem : s.number ip x ∈ L) : Fills ip L T s (s.logged (s.number ip x) disk) where
  traced := by
    rw [show disk = s.disk.set (s.number ip x) block from writes.disk]
    exact logged_traced mem block
  number y := .inl (writes.number sound loaded there content y)
  count := by
    have filled : (s.logged (s.number ip x) disk).filled ip T = s.filled ip T := by
      refine congrArg Finset.card (Finset.filter_congr fun y _ => ?_)
      rw [writes.number sound loaded there content y]
    rw [writes.free sound loaded there, filled]

/-- The buffers after `m` bytes of the source have gone to block `addr`. -/
def State.copied (s : State) (addr o m : Nat) (src : Nat → Option UInt8) (tot : Nat) : Disk :=
  s.disk.set addr ((s.disk addr).fill o m fun j => (src (tot + j)).getD 0)

theorem State.copied_overwrites (s : State) (ip : Ip) (x : BlockSlot) (o m : Nat)
    (src : Nat → Option UInt8) (tot : Nat) :
    Overwrites ip x ((s.disk (s.number ip x)).fill o m fun j => (src (tot + j)).getD 0) s
      { s with disk := s.copied (s.number ip x) o m src tot } :=
  ⟨rfl, rfl, rfl⟩

theorem copyIn_ends (fails : ∀ e, LogFails s.log.block.length s e → E e) :
    (copyIn addr o m src tot).Ends E (fun copied s' =>
      copied = false ∧ readable src tot m < m ∧
        s' = { s with disk := s.copied addr o (readable src tot m) src tot } ∨
      copied = true ∧ readable src tot m = m ∧
        s' = s.logged addr (s.copied addr o m src tot)) s := by
  have le := readable_le src tot m
  refine .atomic ?_
  dsimp only
  split
  · next less => exact .inl ⟨rfl, less, rfl⟩
  have is : readable src tot m = m := by omega
  refine record_ends true fails (.inr ⟨rfl, is, ?_⟩)
  rw [is]
  rfl

theorem writeLoop_done (ip : Ip) (src : Nat → Option UInt8) (n fuel off : Nat) :
    writeLoop ip src n fuel off n = pure (off, n) := by
  cases fuel with
  | zero => rfl
  | succ fuel =>
    unfold writeLoop
    rw [if_neg (Nat.lt_irrefl n)]

/-- Every run of the loop ends in one of the three ways. -/
theorem writeLoop_ends (sound : Sound s) (loaded : Loaded s ip) (fits : off + n ≤ MAXFILE * BSIZE)
    (fuel tot : Nat) (enough : n ≤ tot + fuel) (advances : Advances ip off src tot s s1)
    (le : tot ≤ n) (past : tot ≤ readable src 0 n)
    (aligned : tot < n → tot = 0 ∨ (off + tot) % BSIZE = 0)
    (outstanding : s1.log.outstanding = s.log.outstanding)
    (weight : s1.weight ip + 2 * spans (off + tot) (n - tot) ≤ W) :
    (writeLoop ip src n fuel (off + tot) tot).Ends (LogFails W s)
      (fun r s' => r.1 = off + r.2 ∧ Ending ip off src n s r.2 s' ∧ s'.weight ip ≤ W ∧
        s'.log.outstanding = s.log.outstanding) s1 := by
  induction fuel generalizing tot s1 with
  | zero =>
    have is : tot = n := by omega
    subst is
    exact ⟨rfl, .done (Nat.le_antisymm (readable_le _ _ _) past) advances, by omega, outstanding⟩
  | succ fuel ih =>
    by_cases more : tot < n
    · have aligned := aligned more
      have small : (off + tot) / BSIZE < MAXFILE := by
        rw [Nat.div_lt_iff_lt_mul (by decide)]
        omega
      obtain ⟨x, slot⟩ := blockSlot_of_lt small
      have content := blockSlot_ne_indirect slot
      have before := advances.fills
      have all1 := advances.all
      rw [reached_eq aligned] at before all1
      have step := spans_step (off + tot) (Nat.sub_pos_of_lt more) rfl
      generalize least : min (n - tot) (BSIZE - (off + tot) % BSIZE) = m at step
      have slots : slotsTo (off / BSIZE) ((off + tot) / BSIZE + 1) =
          slotsTo (off / BSIZE) ((off + tot) / BSIZE) ∪ slotsOf ((off + tot) / BSIZE) :=
        slotsTo_succ (Nat.div_le_div_right (Nat.le_add_right _ _))
      unfold writeLoop
      rw [if_pos more, least]
      refine ((bmap_ends advances.sound (advances.loaded loaded) slot).mono
        (fun e fails => fails.mono (by omega) outstanding.symm) fun _ _ h => h).bind ?_
      rintro addr s2 ⟨mapped, charged, new, filled⟩
      have wrote2 := advances.toWrote.grow mapped.grows
      have outstanding2 : s2.log.outstanding = s.log.outstanding := by
        rcases charged with rfl | ⟨same, -⟩
        · exact outstanding
        · exact same.trans outstanding
      have weight2 : s2.weight ip ≤ s1.weight ip + 2 := by
        rcases charged with rfl | ⟨-, -, bound, -⟩
        · exact Nat.le_add_right _ _
        · exact bound
      have fills2 : Fills ip (s.pathLogs ip (slotsTo (off / BSIZE) ((off + tot) / BSIZE)))
          (slotsTo (off / BSIZE) ((off + tot) / BSIZE + 1)) s s2 := by
        rw [slots]
        refine (before.mono (Set.Subset.refl _) Finset.subset_union_left).trans sound advances.free
          (new.mono (fun b mem => .inl (before.mapLogs advances.toTouches mem))
            Finset.subset_union_right)
      split
      · next none =>
        exact ⟨rfl, .full past more slot (mapped.number.trans none) (mapped.full none)
          wrote2 fills2,
          by omega, outstanding2⟩
      rename_i there
      have there2 : s2.number ip x ≠ 0 := mapped.number ▸ there
      have loaded2 := wrote2.loaded loaded
      have length2 := length_le_weight s2 ip
      have all2 : ∀ y ∈ slotsTo (off / BSIZE) ((off + tot) / BSIZE + 1), s2.number ip y ≠ 0 := by
        intro y mem
        rw [slots] at mem
        rcases Finset.mem_union.mp mem with old | now
        · rw [mapped.grows.kept y (all1 y old)]
          exact all1 y old
        · exact filled there y now
      have inBlock : (off + tot) % BSIZE < BSIZE := Nat.mod_lt _ (by decide)
      have is := mapped.number
      subst is
      refine (copyIn_ends fun e fails => fails.mono (by omega) outstanding2.symm).bind ?_
      rintro copied s3 (⟨rfl, less, rfl⟩ | ⟨rfl, all, rfl⟩)
      · have stops := readable_cut past (by omega) less
        have writes := s2.copied_overwrites ip x ((off + tot) % BSIZE) (readable src tot m) src tot
        have number := writes.number wrote2.sound loaded2 there2 content
        have wrote3 := wrote2.more loaded2 slot there2 (by omega) writes
        rw [← stops] at wrote3
        have weight3 := weight_le (n := 0) (fun _ => number indirectBlock)
          ⟨rfl, List.Subset.refl _, le_rfl⟩
        refine ⟨rfl, .cut past (by omega) ?_ aligned slot fills2 all2 ⟨rfl, rfl, rfl⟩ rfl
          number wrote3,
          by omega, outstanding2⟩
        unfold BSIZE at inBlock least ⊢
        omega
      · have writes : Overwrites ip x _ s2 (s2.logged (s2.number ip x)
            (s2.copied (s2.number ip x) ((off + tot) % BSIZE) m src tot)) := ⟨rfl, rfl, rfl⟩
        have number := writes.number wrote2.sound loaded2 there2 content
        have wrote3 := wrote2.more loaded2 slot there2 (by omega) writes
        have mem : x ∈ slotsTo (off / BSIZE) ((off + tot) / BSIZE + 1) := by
          rw [slots]
          exact Finset.mem_union_right _ (slotsOf_mem slot)
        have logs : s2.number ip x ∈
            s.pathLogs ip (slotsTo (off / BSIZE) ((off + tot) / BSIZE + 1)) := by
          rcases fills2.number x with same | ⟨-, -, free, -⟩
          · exact .inr ⟨x, mem, same.symm⟩
          · exact .inl (.inr (.inl free))
        have fills3 := (fills2.mono (s.pathLogs_mono ip (slotsTo_mono (Nat.le_succ _)))
          (Finset.Subset.refl _)).trans sound wrote2.free
          (writes.fills wrote2.sound loaded2 there2 content logs)
        have advances3 : Advances ip off src (tot + m) s _ := { wrote3 with
          fills := by
            rw [reached_step more least]
            exact fills3
          all := by
            rw [reached_step more least]
            intro y mem
            rw [number]
            exact all2 y mem }
        -- a block that is new is in the log already
        have weight3 : (s2.logged (s2.number ip x)
            (s2.copied (s2.number ip x) ((off + tot) % BSIZE) m src tot)).weight ip ≤
              s1.weight ip + 2 := by
          rcases charged with rfl | ⟨-, -, bound, mem⟩
          · have := weight_le (fun _ => number indirectBlock) (logged_logs s2 _ _)
            omega
          · have := weight_le (fun _ => number indirectBlock) (logged_absorbs (mem there))
            omega
        have later := ih (tot + m) (by omega) advances3 (by omega)
          (readable_past past (by omega) all) (fun less => .inr (by
            unfold BSIZE at least ⊢
            omega)) outstanding2 (by rw [← Nat.add_assoc, Nat.sub_add_eq]; omega)
        rwa [← Nat.add_assoc] at later
    · have is : tot = n := by omega
      subst is
      rw [writeLoop_done]
      exact ⟨rfl, .done (Nat.le_antisymm (readable_le _ _ _) past) advances, by omega, outstanding⟩

theorem Ending.wrote (ending : Ending ip off src n s t s1) : ∃ tot, Wrote ip off src tot s s1 := by
  cases ending with
  | done all advances => exact ⟨n, advances.toWrote⟩
  | full past less slot none free wrote fills => exact ⟨t, wrote⟩
  | cut past less same first slot fills all writes log number wrote => exact ⟨_, wrote⟩

/-! ## writei -/

theorem Frame.loaded (frame : Frame ip s s') (type : (s'.itable ip).type ≠ 0)
    (loaded : Loaded s ip) : Loaded s' ip := by
  have entry := frame.entry
  refine ⟨?_, ?_, type⟩
  · rw [entry]
    exact loaded.used
  · rw [entry]
    exact loaded.valid

/-- What `writei` does when it writes `t` bytes. -/
structure Written (ip : Ip) (off : Nat) (src : Nat → Option UInt8) (t : Nat) (s s' : State) : Prop
    extends Frame ip s s' where
  bytes : ∀ p, s'.byteAt ip p =
    if off ≤ p ∧ p < off + t then (src (p - off)).getD 0 else s.byteAt ip p
  mapped : ∀ p, off ≤ p → p < off + t →
    ∃ x, blockSlot (p / BSIZE) = some x ∧ s'.number ip x ≠ 0
  kept : ∀ x, s.number ip x ≠ 0 → s'.number ip x = s.number ip x
  copy : (s'.itable ip).toDinode = { (s.itable ip).toDinode with
    addrs := (s'.itable ip).addrs
    size := UInt32.ofNat (max (s.itable ip).size.toNat (off + t)) }
  synced : s'.disk.dinode s.sb (s.itable ip).inum = (s'.itable ip).toDinode

theorem plain_size (size : UInt32) : Plain fun v => { v with size := size } :=
  ⟨fun _ => rfl, fun _ => rfl, fun _ => rfl⟩

theorem number_same (sound : Sound s) (loaded : Loaded s ip)
    (addrs : (s'.itable ip).addrs = (s.itable ip).addrs)
    (disk : ∀ c, s.sb.dataStart ≤ c → s'.disk c = s.disk c) (x : BlockSlot) :
    s'.number ip x = s.number ip x := by
  unfold State.number
  rw [Dinode.number_addrs addrs]
  refine Dinode.number_congr (fun nonzero => disk _ ?_) x
  have indirect : s.number ip indirectBlock ≠ 0 := fun zero => nonzero (number_addr.mp zero)
  exact (sound.own_data (sound.own_number loaded indirect)).1

theorem data_same (sound : Sound s) (loaded : Loaded s ip)
    (addrs : (s'.itable ip).addrs = (s.itable ip).addrs)
    (disk : ∀ c, s.sb.dataStart ≤ c → s'.disk c = s.disk c) (x : BlockSlot) :
    s'.data ip x = s.data ip x := by
  show (if s'.number ip x = 0 then _ else s'.disk (s'.number ip x)) =
    if s.number ip x = 0 then _ else s.disk (s.number ip x)
  rw [number_same sound loaded addrs disk]
  split
  · rfl
  · next nonzero => exact disk _ (sound.own_data (sound.own_number loaded nonzero)).1

/-- The end of `writei`: the inode has its new size, and the disk has the inode. -/
structure Settled (ip : Ip) (size : UInt32) (s s' : State) : Prop where
  addrs : (s'.itable ip).addrs = (s.itable ip).addrs
  size : (s'.itable ip).size = size
  traced : Traced {b | b < s.sb.dataStart} s s'
  disk : ∀ c, s.sb.dataStart ≤ c → s'.disk c = s.disk c

theorem updated_traced (layout : s.sb.Layout) (small : (s.itable ip).inum < s.sb.ninodes) :
    Traced {b | b < s.sb.dataStart} s (s.updated ip) := by
  have fixed : s.sb.iblock (s.itable ip).inum ∈ {b | b < s.sb.dataStart} :=
    Nat.lt_trans (layout.iblock_lt small) s.sb.bmapstart_lt
  exact logged_traced fixed _

theorem settled (sound : Sound s) (loaded : Loaded s ip)
    (resized : s2 = s.modifyInode ip fun v => { v with size := size }) :
    Settled ip size s (s2.updated ip) := by
  have here : s2.itable ip = { s.itable ip with size := size } := by
    rw [resized, State.modifyInode_self]
  have small : (s2.itable ip).inum < s2.sb.ninodes := by
    rw [here, resized]
    exact sound.inum_lt loaded.used
  have layout : s2.sb.Layout := resized ▸ sound.layout
  have traced := updated_traced layout small
  subst resized
  refine ⟨?_, ?_, ⟨traced.sub, traced.within, traced.changed⟩, fun c isData => ?_⟩
  · exact congrArg (fun v => v.addrs) here
  · exact congrArg (fun v => v.size) here
  · exact Disk.setDinode_data layout small isData _

theorem Wrote.update (wrote : Wrote ip off src tot s s1) (loaded : Loaded s ip)
    (is : size = UInt32.ofNat (max (s.itable ip).size.toNat (off + tot)))
    (resized : s2 = s1.modifyInode ip fun v => { v with size := size }) :
    Written ip off src tot s (s2.updated ip) := by
  have loaded1 := wrote.loaded loaded
  have frame2 : Frame ip s1 s2 := resized ▸ (plain_size size).frame wrote.sound ip
  have here : s2.itable ip = { s1.itable ip with size := size } := by
    rw [resized, State.modifyInode_self]
  have loaded2 : Loaded s2 ip := frame2.loaded (by rw [here]; exact loaded1.type) loaded1
  have frame3 := updated_frame frame2.sound loaded2
  have end_ := settled wrote.sound loaded1 resized
  have number := number_same wrote.sound loaded1 end_.addrs end_.disk
  refine { (wrote.frame.trans frame2).trans frame3 with
    bytes := fun p => ?_, mapped := fun p low high => ?_, kept := fun x nonzero => ?_
    copy := ?_, synced := ?_ }
  · rw [← wrote.bytes p]
    exact byteAt_of_data (fun x _ => data_same wrote.sound loaded1 end_.addrs end_.disk x) p
  · obtain ⟨x, slot, there⟩ := wrote.mapped p low high
    exact ⟨x, slot, by rw [number x]; exact there⟩
  · rw [number x]
    exact wrote.kept x nonzero
  · have table : (s2.updated ip).itable = s2.itable := rfl
    rw [table, here, wrote.copy, is]
  have inum : (s2.itable ip).inum = (s.itable ip).inum := by rw [frame2.inum, wrote.inum]
  have sb : s2.sb = s.sb := frame2.sb.trans wrote.sb
  have after := updated_dinode s2 ip
  rw [inum, sb] at after
  exact after

theorem growTo_ends :
    (growTo ip off).Ends E (fun _ s' => s' = s.modifyInode ip fun v =>
      { v with size := UInt32.ofNat (max (s.itable ip).size.toNat off) }) s := by
  refine .after_read ?_
  split
  · next grows =>
    rw [Nat.max_eq_right (by omega)]
    exact rfl
  · next stays =>
    rw [Nat.max_eq_left (by omega), UInt32.ofNat_toNat]
    show s = { s with itable := Function.update s.itable ip (s.itable ip) }
    rw [Function.update_eq_self]

theorem writei_cut (sound : Sound s) (loaded : Loaded s ip)
    (start : off ≤ (s.itable ip).size.toNat) (fits : off + n ≤ MAXFILE * BSIZE) :
    (writei ip src off n).Ends (LogFails (s.weight ip + 2 * spans off n) s)
      (fun r s' => ∃ t s1 s2, r = some t ∧ Ending ip off src n s t s1 ∧ s' = s2.updated ip ∧
        s2 = s1.modifyInode ip fun v =>
          { v with size := UInt32.ofNat (max (s1.itable ip).size.toNat (off + t)) }) s := by
  have small : off + n < 2 ^ 32 := Nat.lt_of_le_of_lt fits (by decide)
  refine .after_read ?_
  rw [if_neg (by omega), if_neg (by omega)]
  refine (writeLoop_ends (W := s.weight ip + 2 * spans off n) sound loaded fits n 0 (by omega)
    (.start sound ip off src) (Nat.zero_le n) (Nat.zero_le _) (fun _ => .inl rfl) rfl
    le_rfl).bind ?_
  rintro ⟨off', t⟩ s1 ⟨at_, ending, weight, outstanding⟩
  have at_ : off' = off + t := at_
  subst at_
  refine growTo_ends.bind ?_
  rintro _ s2 resized
  have log : s2.log = s1.log := by rw [resized]; rfl
  refine after_store .update (fun e fails => fails.mono ?_ ?_)
    ⟨t, s1, s2, rfl, ending, rfl, resized⟩
  · rw [log]
    exact Nat.le_trans (length_le_weight s1 ip) weight
  · rw [log]
    exact outstanding.symm

theorem writei_ends (sound : Sound s) (loaded : Loaded s ip) (all : ∀ j < n, (src j).isSome)
    (start : off ≤ (s.itable ip).size.toNat) (fits : off + n ≤ MAXFILE * BSIZE) :
    (writei ip src off n).Ends (LogFails (s.weight ip + 2 * spans off n) s)
      (fun r s' => ∃ t, r = some t ∧ t ≤ n ∧ (t < n → s'.freeBlocks = 0) ∧
        Written ip off src t s s') s := by
  refine (writei_cut sound loaded start fits).imp ?_
  rintro _ _ ⟨t, s1, s2, rfl, ending, rfl, resized⟩
  have size {tot : Nat} (wrote : Wrote ip off src tot s s1) :
      UInt32.ofNat (max (s1.itable ip).size.toNat (off + t)) =
        UInt32.ofNat (max (s.itable ip).size.toNat (off + t)) := by
    rw [wrote.copy]
  cases ending with
  | done _ advances =>
    exact ⟨n, rfl, le_rfl, fun less => absurd less (Nat.lt_irrefl n),
      advances.toWrote.update loaded (size advances.toWrote) resized⟩
  | full _ less _ _ free wrote _ =>
    refine ⟨t, rfl, Nat.le_of_lt less, fun _ => ?_, wrote.update loaded (size wrote) resized⟩
    have frame : Frame ip s1 s2 := resized ▸ (plain_size _).frame wrote.sound ip
    have used : 0 < (s2.itable ip).ref := by
      rw [frame.entry]
      exact (wrote.loaded loaded).used
    rw [updated_free frame.sound used, resized]
    exact free
  | cut _ less =>
    rw [readable_all fun j below => by rw [Nat.zero_add]; exact all j below] at less
    exact absurd less (Nat.lt_irrefl n)

end Loop

end Xv6.Fs
