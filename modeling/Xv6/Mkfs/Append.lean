import Mathlib.Data.List.GetD
import Xv6.Lib.Outcome
import Xv6.Mkfs.Basic

/-!
# Appending to a file of the image

The blocks of the image are handed out in order. `Laid` says that those below `top` have been
handed out, each to one slot of one inode, and that the others are still empty. `Holds` says
that an inode has the blocks that its bytes need and no others, and that the bytes are in them.

`iappend` works on a copy of the inode, which it writes back at the end. `Ready` is what holds
meanwhile, with the copy `v` in the place of inode `i`.
-/

namespace Xv6.Mkfs

open Function (update update_self update_of_ne)
open Log (BSIZE Block)
open Fs (Disk Dinode AddrSlot indirectSlot NDIRECT NINDIRECT MAXFILE IPB BPB BlockSlot blockSlot
  indirectBlock blockSlot_inj blockSlot_ne_indirect blockSlot_of_lt byteAt_eq)
open Fs.Dinode (byteAt_of_data)
open Ownership (Owned)
open Outcome (Ends)

/-- The offset of the first byte that needs the block in a slot. -/
def start : BlockSlot → Nat
  | .addr k => k.val * BSIZE
  | .entry j => (NDIRECT + j.val) * BSIZE

/-- The number of blocks that `len` bytes need. -/
def need (len : Nat) : Nat := (len + (BSIZE - 1)) / BSIZE + if NDIRECT * BSIZE < len then 1 else 0

/-- The inode has the blocks for `bytes`, with these bytes in them and zeros after them. -/
structure Holds (v : Dinode) (disk : Disk) (bytes : List UInt8) : Prop where
  slots : ∀ x, v.number disk x ≠ 0 ↔ start x < bytes.length
  byte : ∀ q, v.byteAt disk q = bytes.getD q 0

def own (nodes : Nat → Dinode) (disk : Disk) (y : Nat × BlockSlot) : Option Nat :=
  if (nodes y.1).number disk y.2 = 0 then none else some ((nodes y.1).number disk y.2)

/-- The blocks from `nmeta` up to `top` have been handed out. -/
structure Laid (nodes : Nat → Dinode) (disk : Disk) (top : Nat) : Prop where
  low : nmeta ≤ top
  owned : Owned (0 : Multiset Nat) (own nodes disk) (fun _ => False) fun b => b < nmeta ∨ top ≤ b
  blank : ∀ b, top ≤ b → disk b = fun _ => 0

/-! ## Slots and offsets -/

section Slots

variable {bn off n : Nat} {x y : BlockSlot}

theorem start_of_blockSlot (slot : blockSlot bn = some x) : start x = bn * BSIZE := by
  unfold blockSlot at slot
  split at slot
  · cases slot
    rfl
  split at slot <;> cases slot
  show (NDIRECT + (bn - NDIRECT)) * BSIZE = bn * BSIZE
  congr 1
  omega

theorem eq_of_start (slot : blockSlot bn = some x) (same : start y = bn * BSIZE) :
    y = x ∨ y = indirectBlock ∧ bn = NDIRECT := by
  cases y with
  | addr k =>
    have is : k.val = bn := Nat.eq_of_mul_eq_mul_right (by decide) same
    by_cases direct : bn < NDIRECT
    · rw [blockSlot, dif_pos direct] at slot
      cases slot
      exact .inl (congrArg BlockSlot.addr (Fin.ext is))
    · have last : k.val = NDIRECT := by omega
      exact .inr ⟨congrArg BlockSlot.addr (Fin.ext last), is.symm.trans last⟩
  | entry j =>
    have is : NDIRECT + j.val = bn := Nat.eq_of_mul_eq_mul_right (by decide) same
    rw [blockSlot, dif_neg (by omega), dif_pos (by omega)] at slot
    cases slot
    exact .inl (congrArg BlockSlot.entry (Fin.ext (show j.val = bn - NDIRECT by omega)))

theorem start_mod (x : BlockSlot) : start x % BSIZE = 0 := by
  cases x with
  | addr k | entry j => exact Nat.mul_mod_left _ _

theorem start_lt_add (slot : blockSlot (off / BSIZE) = some x) (some : 0 < n)
    (inside : off + n ≤ (off / BSIZE + 1) * BSIZE) : start y < off + n ↔
      start y < off ∨ y = x ∨ y = indirectBlock ∧ NDIRECT ≤ off / BSIZE := by
  have here := start_of_blockSlot slot
  constructor
  · intro below
    by_cases before : start y < off
    · exact .inl before
    have aligned := start_mod y
    have same : start y = off / BSIZE * BSIZE := by
      unfold BSIZE at *
      omega
    exact .inr ((eq_of_start slot same).imp_right fun h => ⟨h.1, h.2.ge⟩)
  · rintro (before | rfl | ⟨rfl, is⟩)
    · omega
    · unfold BSIZE at *
      omega
    · have indirect : start indirectBlock = NDIRECT * BSIZE := rfl
      unfold BSIZE at *
      omega

theorem need_add (some : 0 < n) (inside : off + n ≤ (off / BSIZE + 1) * BSIZE) :
    need (off + n) = need off + (if off % BSIZE = 0 then 1 else 0) +
      if off = NDIRECT * BSIZE then 1 else 0 := by
  unfold need NDIRECT
  unfold BSIZE at *
  split_ifs <;> omega

theorem need_mono (le : a ≤ b) : need a ≤ need b := by
  unfold need NDIRECT BSIZE
  split_ifs <;> omega

end Slots

/-! ## Handing out a block -/

section Laid

variable {nodes nodes' : Nat → Dinode} {disk disk' : Disk} {top i j : Nat} {x y : BlockSlot}
  {v : Dinode}

theorem own_eq_some {y : Nat × BlockSlot} :
    own nodes disk y = some b ↔ b ≠ 0 ∧ (nodes y.1).number disk y.2 = b := by
  unfold own
  split
  · next zero =>
    refine ⟨nofun, ?_⟩
    rintro ⟨nonzero, rfl⟩
    exact absurd zero nonzero
  rename_i nonzero
  rw [Option.some.injEq]
  refine ⟨?_, fun h => h.2⟩
  rintro rfl
  exact ⟨nonzero, rfl⟩

namespace Laid

theorem range (laid : Laid nodes disk top) (there : (nodes i).number disk x ≠ 0) :
    nmeta ≤ (nodes i).number disk x ∧ (nodes i).number disk x < top := by
  have inside := laid.owned.own_apart (own_eq_some (y := (i, x)) |>.mpr ⟨there, rfl⟩)
  omega

theorem inj (laid : Laid nodes disk top) (there : (nodes i).number disk x ≠ 0)
    (same : (nodes j).number disk y = (nodes i).number disk x) : j = i ∧ y = x := by
  have here := own_eq_some (y := (i, x)) |>.mpr ⟨there, rfl⟩
  have other := own_eq_some (y := (j, y)) |>.mpr ⟨there, same⟩
  have both := laid.owned.inj other here
  exact ⟨congrArg Prod.fst both, congrArg Prod.snd both⟩

theorem congr (laid : Laid nodes disk top) (same : ∀ y, own nodes' disk' y = own nodes disk y)
    (rest : ∀ b, top ≤ b → disk' b = disk b) : Laid nodes' disk' top where
  low := laid.low
  owned := laid.owned.fewer fun y _ held => (same y).symm.trans held
  blank b above := (rest b above).trans (laid.blank b above)

theorem grow (laid : Laid nodes disk top) (z : Nat × BlockSlot)
    (next : own nodes' disk' = update (own nodes disk) z (some top))
    (rest : ∀ b, top < b → disk' b = disk b) : Laid nodes' disk' (top + 1) where
  low := Nat.le_succ_of_le laid.low
  owned := by
    have low := laid.low
    have closer : Owned (0 : Multiset Nat) (own nodes disk) (fun _ => False)
        fun b => b < nmeta ∨ top + 1 ≤ b := by
      refine laid.owned.closer fun _ b held => ?_
      have inside := laid.owned.own_apart held
      omega
    rw [next]
    refine closer.assign z (Multiset.notMem_zero top) (fun y held => ?_) (by omega)
    exact laid.owned.own_apart held (.inr le_rfl)
  blank b above := (rest b above).trans (laid.blank b (Nat.le_of_succ_le above))

end Laid

theorem own_update (same : ∀ j, j ≠ i → ∀ y, (nodes j).number disk' y = (nodes j).number disk y)
    (nonzero : b ≠ 0) (numbers : ∀ y, v'.number disk' y = if y = x then b else v.number disk y) :
    own (update nodes i v') disk' =
      update (own (update nodes i v) disk) (i, x) (some b) := by
  funext y
  obtain ⟨j, y⟩ := y
  by_cases here : j = i
  · subst here
    unfold own
    rw [update_self, numbers]
    by_cases slot : y = x
    · subst slot
      rw [if_pos rfl, if_neg nonzero, update_self]
    · rw [if_neg slot, update_of_ne fun eq => slot (congrArg Prod.snd eq)]
      rw [update_self]
  · rw [update_of_ne fun eq => here (congrArg Prod.fst eq)]
    unfold own
    rw [update_of_ne here, update_of_ne here, same j here]

end Laid

/-! ## The bytes of an inode -/

section Holds

variable {v v' : Dinode} {disk disk' : Disk} {bytes : List UInt8}

theorem number_frame
    (same : ∀ x, v.number disk x ≠ 0 → disk' (v.number disk x) = disk (v.number disk x))
    (y : BlockSlot) : v.number disk' y = v.number disk y :=
  Dinode.number_congr (fun there => same indirectBlock fun zero =>
    there (UInt32.toNat_inj.mp zero)) y

theorem byteAt_set (numbers : ∀ y, v.number (disk.set (v.number disk x) buf) y = v.number disk y)
    (inj : ∀ y, v.number disk y = v.number disk x → y = x) (there : v.number disk x ≠ 0)
    (slot : blockSlot bn = some x) (q : Nat) : v.byteAt (disk.set (v.number disk x) buf) q =
      if q / BSIZE = bn then buf ⟨q % BSIZE, Nat.mod_lt _ (by decide)⟩ else v.byteAt disk q := by
  have data (z : BlockSlot) : v.data (disk.set (v.number disk x) buf) z =
      if z = x then buf else v.data disk z := by
    unfold Dinode.data
    rw [numbers]
    by_cases here : z = x
    · subst here
      rw [if_pos rfl, if_neg there, Disk.set_self]
    · rw [if_neg here, Disk.set_other _ _ fun same => here (inj z same)]
  by_cases here : q / BSIZE = bn
  · rw [if_pos here, byteAt_eq (here ▸ slot), data, if_pos rfl]
  rw [if_neg here]
  unfold Dinode.byteAt
  cases slot' : blockSlot (q / BSIZE) with
  | none => rfl
  | some z =>
    have other : z ≠ x := by
      rintro rfl
      exact here (blockSlot_inj slot' slot)
    dsimp only
    rw [data, if_neg other]

theorem Holds.frame (holds : Holds v disk bytes)
    (same : ∀ x, v.number disk x ≠ 0 → disk' (v.number disk x) = disk (v.number disk x)) :
    Holds v disk' bytes where
  slots x := by
    rw [number_frame same]
    exact holds.slots x
  byte q := by
    rw [← holds.byte q]
    refine byteAt_of_data (fun x _ => ?_) q
    unfold Dinode.data
    rw [number_frame same]
    split
    · rfl
    · next there => exact same x there

theorem Holds.addrs (holds : Holds v disk bytes) (addrs : v'.addrs = v.addrs) :
    Holds v' disk bytes where
  slots x := by
    rw [Dinode.number_addrs addrs]
    exact holds.slots x
  byte q := by
    rw [← holds.byte q]
    refine byteAt_of_data (fun x _ => ?_) q
    unfold Dinode.data
    rw [Dinode.number_addrs addrs]

theorem Laid.addrs (laid : Laid (update nodes i v) disk top) (addrs : v'.addrs = v.addrs) :
    Laid (update nodes i v') disk top := by
  refine laid.congr (fun y => ?_) fun _ _ => rfl
  unfold own
  by_cases here : y.1 = i
  · rw [here, update_self, update_self, Dinode.number_addrs addrs]
  · rw [update_of_ne here, update_of_ne here]

theorem Laid.frame (laid : Laid nodes disk top)
    (same : ∀ b, nmeta ≤ b → disk' b = disk b) : Laid nodes disk' top ∧
      ∀ i bytes, Holds (nodes i) disk bytes → Holds (nodes i) disk' bytes := by
  have kept (i : Nat) (x : BlockSlot) (there : (nodes i).number disk x ≠ 0) :
      disk' ((nodes i).number disk x) = disk ((nodes i).number disk x) :=
    same _ (laid.range there).1
  refine ⟨laid.congr (fun y => ?_) fun b above => same b (laid.low.trans above),
    fun i bytes holds => holds.frame (kept i)⟩
  unfold own
  rw [number_frame (kept y.1)]

theorem getD_append_take (bytes p : List UInt8) (n q : Nat) (le : n ≤ p.length) :
    (bytes ++ p.take n).getD q 0 = if q < bytes.length then bytes.getD q 0
      else if q < bytes.length + n then p.getD (q - bytes.length) 0 else 0 := by
  simp only [List.getD_eq_getElem?_getD]
  split
  · next before => rw [List.getElem?_append_left before]
  rename_i after
  rw [List.getElem?_append_right (Nat.le_of_not_lt after)]
  split
  · next inside => rw [List.getElem?_take_of_lt (by omega)]
  · next outside =>
    rw [List.getElem?_eq_none (by rw [List.length_take]; omega)]
    rfl

end Holds

/-! ## While a file is appended to -/

/-- The state of `iappend` on inode `i`, which began in `s0` with the inode `v0`, now that the
inode has `bytes`. The other inodes have the bytes of `c`. -/
structure Ready (i : Nat) (nodes : Nat → Dinode) (c : Nat → List UInt8) (s0 : State) (v0 : Dinode)
    (s : State) (v : Dinode) (bytes : List UInt8) : Prop where
  laid : Laid (update nodes i v) s.disk s.freeblock
  others : ∀ j, j ≠ i → Holds (nodes j) s.disk (c j)
  byte : ∀ q, v.byteAt s.disk q = bytes.getD q 0
  low : ∀ b, b < nmeta → s.disk b = s0.disk b
  inodes : s.freeinode = s0.freeinode
  fields : v = { v0 with addrs := v.addrs }

/-- The slot `x` has the next block if it was empty, and nothing happens to other slots. -/
structure Filled (x : BlockSlot) (v : Dinode) (s : State) (v' : Dinode) (s' : State) : Prop where
  number : ∀ y, v'.number s'.disk y =
    if y = x ∧ v.number s.disk x = 0 then s.freeblock else v.number s.disk y
  top : s'.freeblock = s.freeblock + if v.number s.disk x = 0 then 1 else 0

section Ready

variable {i : Nat} {nodes : Nat → Dinode} {c : Nat → List UInt8} {s0 s s' : State}
  {v0 v v' : Dinode} {bytes : List UInt8} {x y : BlockSlot}

theorem Filled.of_empty (absent : v.number s.disk x = 0)
    (numbers : ∀ y, v'.number s'.disk y = if y = x then s.freeblock else v.number s.disk y)
    (top : s'.freeblock = s.freeblock + 1) : Filled x v s v' s' where
  number y := by simp only [numbers y, absent, and_true]
  top := by rw [if_pos absent, top]

theorem Filled.refl (there : v.number s.disk x ≠ 0) : Filled x v s v s where
  number y := by rw [if_neg fun h => there h.2]
  top := by rw [if_neg there, Nat.add_zero]

theorem Filled.there (filled : Filled x v s v' s') (positive : s.freeblock ≠ 0) (y : BlockSlot) :
    v'.number s'.disk y ≠ 0 ↔ v.number s.disk y ≠ 0 ∨ y = x := by
  rw [filled.number]
  split
  · next new => simp [new, positive]
  · next old =>
    refine ⟨.inl, ?_⟩
    rintro (there | rfl)
    · exact there
    · exact fun absent => old ⟨rfl, absent⟩

theorem Filled.last (filled : Filled x v s v' s') (absent : v.number s.disk x = 0) :
    s'.freeblock = v'.number s'.disk x + 1 := by
  rw [filled.top, filled.number, if_pos absent, if_pos ⟨rfl, absent⟩]

namespace Ready

section

variable (ready : Ready i nodes c s0 v0 s v bytes)

include ready

theorem positive : s.freeblock ≠ 0 := by
  have low := ready.laid.low
  have : 0 < nmeta := by decide
  omega

theorem range (there : v.number s.disk x ≠ 0) :
    nmeta ≤ v.number s.disk x ∧ v.number s.disk x < s.freeblock := by
  have range := ready.laid.range (i := i) (x := x)
  rw [update_self] at range
  exact range there

theorem inj (there : v.number s.disk x ≠ 0)
    (same : v.number s.disk y = v.number s.disk x) : y = x := by
  have inj := ready.laid.inj (i := i) (j := i) (x := x) (y := y)
  rw [update_self] at inj
  exact (inj there same).2

theorem apart (other : j ≠ i)
    (there : v.number s.disk x ≠ 0) : (nodes j).number s.disk y ≠ v.number s.disk x := by
  intro same
  have inj := ready.laid.inj (i := i) (j := j) (x := x) (y := y)
  rw [update_self, update_of_ne other] at inj
  exact other (inj there same).1

/-- The next block goes to slot `x`; nothing but the indirect block has been written to. -/
theorem gain (absent : v.number s.disk x = 0)
    (top : s'.freeblock = s.freeblock + 1) (inodes : s'.freeinode = s.freeinode)
    (fields : v' = { v with addrs := v'.addrs })
    (numbers : ∀ y, v'.number s'.disk y = if y = x then s.freeblock else v.number s.disk y)
    (rest : ∀ b, v.number s.disk indirectBlock ≠ b ∨ b = 0 → s'.disk b = s.disk b) :
    Ready i nodes c s0 v0 s' v' bytes := by
  have low : nmeta ≤ s.freeblock := ready.laid.low
  have positive : 0 < nmeta := by decide
  have other {j : Nat} (away : j ≠ i) (y : BlockSlot) (there : (nodes j).number s.disk y ≠ 0) :
      s'.disk ((nodes j).number s.disk y) = s.disk ((nodes j).number s.disk y) := by
    by_cases indirect : v.number s.disk indirectBlock = 0
    · exact rest _ (.inl fun same => there (same ▸ indirect))
    · exact rest _ (.inl (ready.apart away indirect).symm)
  have above {b : Nat} (high : s.freeblock ≤ b) : s'.disk b = s.disk b := by
    refine rest b ?_
    by_cases indirect : v.number s.disk indirectBlock = 0
    · exact .inl (by omega)
    · have := (ready.range indirect).2
      exact .inl (by omega)
  refine ⟨?_, fun j away => (ready.others j away).frame (other away), fun q => ?_,
    fun b below => ?_, inodes.trans ready.inodes, ?_⟩
  · rw [top]
    refine ready.laid.grow (i, x) ?_ fun b high => above (Nat.le_of_lt high)
    exact own_update (fun j away => number_frame (other away)) (by omega) numbers
  · rw [← ready.byte q]
    refine byteAt_of_data (fun y content => ?_) q
    unfold Dinode.data
    rw [numbers]
    by_cases slot : y = x
    · subst slot
      rw [if_pos rfl, if_neg (by omega), if_pos absent, above le_rfl]
      exact ready.laid.blank _ le_rfl
    · rw [if_neg slot]
      split
      · rfl
      · next there => exact rest _ (.inl fun same => content (ready.inj there same).symm)
  · rw [← ready.low b below]
    refine rest b ?_
    by_cases indirect : v.number s.disk indirectBlock = 0
    · by_cases zero : b = 0
      · exact .inr zero
      · exact .inl (by omega)
    · have := (ready.range indirect).1
      exact .inl (by omega)
  · rw [fields, ready.fields]

theorem fillSlot (small : s.freeblock < 2 ^ 32)
    (k : AddrSlot) (is : Mkfs.fillSlot k v s = next) :
    Ready i nodes c s0 v0 next.2 next.1 bytes ∧ Filled (.addr k) v s next.1 next.2 := by
  have zero_iff : v.addrs k = 0 ↔ v.number s.disk (.addr k) = 0 :=
    ⟨fun zero => congrArg UInt32.toNat zero, fun zero => UInt32.toNat_inj.mp zero⟩
  unfold Mkfs.fillSlot at is
  by_cases absent : v.addrs k = 0
  · have none := zero_iff.mp absent
    have value : (UInt32.ofNat s.freeblock).toNat = s.freeblock := UInt32.toNat_ofNat_of_lt' small
    rw [if_pos absent] at is
    subst is
    have numbers : ∀ y, Dinode.number
        { v with addrs := update v.addrs k (UInt32.ofNat s.freeblock) } s.disk y =
          if y = .addr k then s.freeblock else v.number s.disk y := by
      intro y
      cases y with
      | addr l =>
        unfold Dinode.number
        dsimp only
        by_cases same : l = k
        · subst same
          rw [if_pos rfl, update_self, value]
        · rw [if_neg fun eq => same (BlockSlot.addr.inj eq), update_of_ne same]
      | entry j =>
        rw [if_neg nofun]
        by_cases same : indirectSlot = k
        · -- The new indirect block is empty, as no indirect block was before.
          subst same
          have here : update v.addrs indirectSlot (UInt32.ofNat s.freeblock) indirectSlot =
              UInt32.ofNat s.freeblock := update_self ..
          rw [Dinode.number_entry here, Dinode.number_entry absent, if_pos rfl]
          split
          · rfl
          · rw [value, ready.laid.blank _ le_rfl]
            simp [Bytes.word, Bytes.byte]
        · have other : update v.addrs k (UInt32.ofNat s.freeblock) indirectSlot =
              v.addrs indirectSlot := update_of_ne same ..
          rw [Dinode.number_entry other, Dinode.number_entry rfl]
    exact ⟨ready.gain none rfl rfl rfl numbers fun _ _ => rfl, .of_empty none numbers rfl⟩
  · rw [if_neg absent] at is
    subst is
    exact ⟨ready, .refl fun none => absent (zero_iff.mpr none)⟩

theorem fillEntry (small : s.freeblock < 2 ^ 32)
    (indirect : v.number s.disk indirectBlock ≠ 0) (j : Fin NINDIRECT) :
    Ends (fun _ => FSSIZE ≤ v.number s.disk indirectBlock)
      (fun next => next.1 = v.number next.2.disk (.entry j) ∧
        Ready i nodes c s0 v0 next.2 v bytes ∧ Filled (.entry j) v s v next.2)
      (Mkfs.fillEntry (v.addrs indirectSlot).toNat j.val s) := by
  have there : v.addrs indirectSlot ≠ 0 := fun zero => indirect (congrArg UInt32.toNat zero)
  have entry (disk : Disk) (l : Fin NINDIRECT) :
      v.number disk (.entry l) = (disk (v.number s.disk indirectBlock)).word l.val :=
    (Dinode.number_entry rfl disk l).trans (if_neg there)
  unfold Mkfs.fillEntry rsect
  by_cases inside : (v.addrs indirectSlot).toNat < FSSIZE
  · rw [if_pos inside]
    show Ends _ _ (if (s.disk (v.number s.disk indirectBlock)).word j.val = 0 then _ else _)
    by_cases absent : (s.disk (v.number s.disk indirectBlock)).word j.val = 0
    · have none : v.number s.disk (.entry j) = 0 := (entry _ _).trans absent
      have bound := j.isLt
      rw [if_pos absent]
      refine .ok ?_
      have numbers : ∀ y, v.number (s.disk.set (v.number s.disk indirectBlock)
          ((s.disk (v.number s.disk indirectBlock)).setWord j.val s.freeblock)) y =
            if y = .entry j then s.freeblock else v.number s.disk y := by
        intro y
        cases y with
        | addr l =>
          rfl
        | entry l =>
          rw [entry, entry, Disk.set_self]
          by_cases same : l = j
          · subst same
            rw [if_pos rfl, Bytes.word_setWord_self _ _
              (by unfold NINDIRECT at bound; unfold BSIZE at *; omega), Nat.mod_eq_of_lt small]
          · rw [if_neg fun eq => same (BlockSlot.entry.inj eq),
              Bytes.word_setWord_other _ _ fun eq => same (Fin.ext eq)]
      refine ⟨?_, ready.gain none rfl rfl rfl numbers fun b other => ?_, .of_empty none numbers rfl⟩
      · rw [entry]
        exact congrArg (Bytes.word · j.val) (Disk.set_self ..).symm
      · refine Disk.set_other _ _ ?_
        rcases other with other | rfl
        · exact other.symm
        · exact indirect.symm
    · rw [if_neg absent]
      exact .ok ⟨(entry _ _).symm, ready, .refl fun none => absent ((entry _ _).symm.trans none)⟩
  · rw [if_neg inside]
    exact .error (Nat.le_of_not_lt inside)

theorem findBlock (small : s.freeblock + 1 < 2 ^ 32)
    (slot : blockSlot bn = some x) :
    Ends (fun _ => FSSIZE ≤ v.number s.disk indirectBlock ∨
        FSSIZE ≤ s.freeblock ∧ NDIRECT ≤ bn ∧ v.number s.disk indirectBlock = 0)
      (fun next => next.1 = next.2.1.number next.2.2.disk x ∧
        Ready i nodes c s0 v0 next.2.2 next.2.1 bytes ∧
        (∀ y, next.2.1.number next.2.2.disk y ≠ 0 ↔
          v.number s.disk y ≠ 0 ∨ y = x ∨ y = indirectBlock ∧ NDIRECT ≤ bn) ∧
        next.2.2.freeblock = s.freeblock +
          (if NDIRECT ≤ bn ∧ v.number s.disk indirectBlock = 0 then 1 else 0) +
          (if v.number s.disk x = 0 then 1 else 0) ∧
        (v.number s.disk x = 0 → next.2.2.freeblock = next.1 + 1))
      (Mkfs.findBlock bn v s) := by
  unfold Mkfs.findBlock
  by_cases direct : bn < NDIRECT
  · have notIndirect : ¬ NDIRECT ≤ bn := Nat.not_le.mpr direct
    rw [blockSlot, dif_pos direct] at slot
    cases slot
    rw [dif_pos direct]
    obtain ⟨ready', filled⟩ :=
      ready.fillSlot (Nat.lt_of_succ_lt small) ⟨bn, Nat.lt_succ_of_lt direct⟩ rfl
    generalize Mkfs.fillSlot ⟨bn, Nat.lt_succ_of_lt direct⟩ v s = next at ready' filled
    refine .ok ⟨rfl, ready', fun y => ?_, ?_, filled.last⟩
    · simp only [filled.there ready.positive, notIndirect, and_false, or_false]
    · rw [if_neg fun h => notIndirect h.1]
      exact filled.top
  · have far : NDIRECT ≤ bn := Nat.le_of_not_lt direct
    rw [blockSlot, dif_neg direct] at slot
    split at slot
    · next inside =>
      cases slot
      rw [dif_neg direct]
      obtain ⟨ready1, filled1⟩ := ready.fillSlot (Nat.lt_of_succ_lt small) indirectSlot rfl
      generalize Mkfs.fillSlot indirectSlot v s = mid at ready1 filled1
      obtain ⟨v1, s1⟩ := mid
      have top1 := filled1.top
      have indirect : v1.number s1.disk indirectBlock ≠ 0 :=
        (filled1.there ready.positive _).mpr (.inr rfl)
      have same : v1.number s1.disk (.entry ⟨bn - NDIRECT, inside⟩) =
          v.number s.disk (.entry ⟨bn - NDIRECT, inside⟩) := by
        rw [filled1.number, if_neg fun h => nomatch h.1]
      refine ((ready1.fillEntry ?_ indirect ⟨bn - NDIRECT, inside⟩).errors ?_).bind ?_
      · rw [top1]
        split <;> omega
      · intro _ outside
        rw [filled1.number] at outside
        split at outside
        · next h => exact .inr ⟨outside, far, h.2⟩
        · exact .inl outside
      · rintro ⟨b, s'⟩ ⟨here, ready', filled⟩
        refine .ok ⟨here, ready', fun y => ?_, ?_, fun absent => ?_⟩
        · rw [filled.there ready1.positive, filled1.there ready.positive, or_assoc]
          simp only [far, and_true, or_comm]
        · rw [← same]
          simpa only [far, true_and, ← top1] using filled.top
        · rw [here, filled.last (same.trans absent)]
    · cases slot

theorem write {p : List UInt8}
    (slot : blockSlot (bytes.length / BSIZE) = some x) (there : v.number s.disk x ≠ 0)
    (le : n ≤ p.length) (inside : bytes.length + n ≤ (bytes.length / BSIZE + 1) * BSIZE) :
    Ready i nodes c s0 v0
      (wsect (v.number s.disk x) ((s.disk (v.number s.disk x)).fill
        (bytes.length - bytes.length / BSIZE * BSIZE) n fun j => p.getD j 0) s) v
      (bytes ++ p.take n) ∧
    ∀ y, v.number (s.disk.set (v.number s.disk x) ((s.disk (v.number s.disk x)).fill
        (bytes.length - bytes.length / BSIZE * BSIZE) n fun j => p.getD j 0)) y =
      v.number s.disk y := by
  obtain ⟨low, high⟩ := ready.range there
  generalize block : (s.disk (v.number s.disk x)).fill
    (bytes.length - bytes.length / BSIZE * BSIZE) n (fun j => p.getD j 0) = buf
  have content := blockSlot_ne_indirect slot
  have numbers (y : BlockSlot) :
      v.number (s.disk.set (v.number s.disk x) buf) y = v.number s.disk y := by
    refine Dinode.number_congr (fun indirect => Disk.set_other _ _ fun same => ?_) y
    exact content (ready.inj (y := indirectBlock) there same).symm
  have others (j : Nat) (away : j ≠ i) (y : BlockSlot) (_ : (nodes j).number s.disk y ≠ 0) :
      s.disk.set (v.number s.disk x) buf ((nodes j).number s.disk y) =
        s.disk ((nodes j).number s.disk y) := Disk.set_other _ _ (ready.apart away there)
  refine ⟨⟨?_, fun j away => (ready.others j away).frame (others j away), fun q => ?_,
    fun b below => ?_, ready.inodes, ready.fields⟩, numbers⟩
  · refine ready.laid.congr (fun y => ?_) fun b above => Disk.set_other _ _ (by omega)
    obtain ⟨j, y⟩ := y
    unfold own
    by_cases here : j = i
    · subst here
      rw [update_self]
      show (if v.number (s.disk.set _ buf) y = 0 then _ else
        some (v.number (s.disk.set _ buf) y)) = _
      rw [numbers]
    · rw [update_of_ne here]
      show (if (nodes j).number (s.disk.set _ buf) y = 0 then _
        else some ((nodes j).number (s.disk.set _ buf) y)) = _
      rw [number_frame (others j here)]
  · rw [getD_append_take _ _ _ _ le]
    have old := ready.byte q
    show v.byteAt (s.disk.set _ buf) q = _
    rw [byteAt_set numbers (fun y same => ready.inj there same) there slot]
    have before : bytes.length / BSIZE * BSIZE ≤ bytes.length := Nat.div_mul_le_self _ _
    by_cases same : q / BSIZE = bytes.length / BSIZE
    · have data : v.data s.disk x = s.disk (v.number s.disk x) := if_neg there
      have before' : bytes.length / BSIZE * BSIZE ≤ q := same ▸ Nat.div_mul_le_self _ _
      have place : q % BSIZE = q - bytes.length / BSIZE * BSIZE := by
        unfold BSIZE at *
        omega
      rw [byteAt_eq (same ▸ slot), data] at old
      rw [if_pos same, ← block]
      unfold Bytes.fill
      dsimp only
      by_cases early : q < bytes.length
      · rw [if_neg (by omega), if_pos early, ← old]
      rw [if_neg early]
      by_cases late : q < bytes.length + n
      · rw [if_pos (by omega), if_pos late]
        congr 1
        omega
      · rw [if_neg (by omega), if_neg late, old, List.getD_eq_default _ _ (Nat.le_of_not_lt early)]
    · rw [if_neg same, old]
      by_cases early : q < bytes.length
      · rw [if_pos early]
      · have late : ¬ q < bytes.length + n := by
          unfold BSIZE at *
          omega
        rw [if_neg early, if_neg late, List.getD_eq_default _ _ (Nat.le_of_not_lt early)]
  · rw [← ready.low b below]
    exact Disk.set_other _ _ (by omega)

end

end Ready

end Ready

/-- `Ready`, between two rounds of the loop. The inode had `len0` bytes at the beginning. -/
structure Grown (i : Nat) (nodes : Nat → Dinode) (c : Nat → List UInt8) (s0 : State) (v0 : Dinode)
    (len0 : Nat) (s : State) (v : Dinode) (bytes : List UInt8) : Prop where
  ready : Ready i nodes c s0 v0 s v bytes
  slots : ∀ y, v.number s.disk y ≠ 0 ↔ start y < bytes.length
  count : s.freeblock + need len0 = s0.freeblock + need bytes.length
  room : s.freeblock ≤ FSSIZE
  short : bytes.length ≤ MAXFILE * BSIZE

section Grown

variable {i len0 n : Nat} {nodes : Nat → Dinode} {c : Nat → List UInt8} {s0 s : State}
  {v0 v : Dinode} {bytes p : List UInt8} {x : BlockSlot}

theorem Grown.findBlock (grown : Grown i nodes c s0 v0 len0 s v bytes)
    (slot : blockSlot (bytes.length / BSIZE) = some x) (some : 0 < n)
    (inside : bytes.length + n ≤ (bytes.length / BSIZE + 1) * BSIZE) :
    Ends (fun _ => FSSIZE + need len0 < s0.freeblock + need (bytes.length + n))
      (fun next => next.1 = next.2.1.number next.2.2.disk x ∧
        Ready i nodes c s0 v0 next.2.2 next.2.1 bytes ∧
        (∀ y, next.2.1.number next.2.2.disk y ≠ 0 ↔ start y < bytes.length + n) ∧
        next.2.2.freeblock + need len0 = s0.freeblock + need (bytes.length + n) ∧
        (next.1 < FSSIZE ↔ next.2.2.freeblock ≤ FSSIZE))
      (Mkfs.findBlock (bytes.length / BSIZE) v s) := by
  have room := grown.room
  have count := grown.count
  have more := need_add some inside
  have small : s.freeblock + 1 < 2 ^ 32 := by
    unfold FSSIZE at room
    omega
  have absent : v.number s.disk x = 0 ↔ bytes.length % BSIZE = 0 := by
    rw [← not_iff_not, ← ne_eq, grown.slots, start_of_blockSlot slot]
    unfold BSIZE
    omega
  have first : NDIRECT ≤ bytes.length / BSIZE ∧ v.number s.disk indirectBlock = 0 ↔
      bytes.length = NDIRECT * BSIZE := by
    have indirect := grown.slots indirectBlock
    rw [← not_not (a := v.number s.disk indirectBlock = 0), ← ne_eq, indirect]
    show _ ∧ ¬ NDIRECT * BSIZE < _ ↔ _
    unfold BSIZE
    omega
  refine (grown.ready.findBlock small slot).mono ?_ ?_
  · rintro _ (outside | ⟨full, far⟩)
    · by_cases none : v.number s.disk indirectBlock = 0
      · rw [none] at outside
        exact absurd outside (by decide)
      · have := (grown.ready.range none).2
        omega
    · rw [if_pos (first.mp far)] at more
      omega
  · rintro ⟨b, v', s'⟩ ⟨here, ready', slots, top, fresh⟩
    rw [if_congr first rfl rfl, if_congr absent rfl rfl] at top
    refine ⟨here, ready', fun y => ?_, by omega, ?_⟩
    · rw [slots, grown.slots, start_lt_add slot some inside]
    by_cases new : v.number s.disk x = 0
    · omega
    have indirect : ¬ bytes.length = NDIRECT * BSIZE := by
      intro is
      apply new
      rw [absent, is]
      exact Nat.mul_mod_left _ _
    rw [if_neg indirect, if_neg fun h => new (absent.mpr h)] at top
    have there : v'.number s'.disk x ≠ 0 := (slots x).mpr (.inl new)
    have below := (ready'.range there).2
    omega

/-- The loop appends all bytes, unless the file gets too long or the image has no room. -/
theorem Grown.appendLoop (fuel : Nat) (grown : Grown i nodes c s0 v0 len0 s v bytes)
    (enough : p.length ≤ fuel) :
    Ends (fun _ => MAXFILE * BSIZE < bytes.length + p.length ∨
        FSSIZE + need len0 < s0.freeblock + need (bytes.length + p.length))
      (fun next => next.2.1 = (bytes ++ p).length ∧
        Grown i nodes c s0 v0 len0 next.2.2 next.1 (bytes ++ p))
      (Mkfs.appendLoop fuel p bytes.length v s) := by
  induction fuel generalizing s v bytes p with
  | zero =>
    obtain rfl : p = [] := List.eq_nil_of_length_eq_zero (Nat.le_zero.mp enough)
    rw [List.append_nil]
    exact .ok ⟨rfl, grown⟩
  | succ fuel ih =>
    unfold Mkfs.appendLoop
    by_cases done : p = []
    · subst done
      rw [if_pos rfl, List.append_nil]
      exact .ok ⟨rfl, grown⟩
    have positive : 0 < p.length := List.length_pos_iff.mpr done
    rw [if_neg done]
    by_cases fits : bytes.length / BSIZE < MAXFILE
    · obtain ⟨x, slot⟩ := blockSlot_of_lt fits
      rw [if_pos fits]
      generalize least : min p.length ((bytes.length / BSIZE + 1) * BSIZE - bytes.length) = n
      have begin_ : bytes.length < (bytes.length / BSIZE + 1) * BSIZE := by
        unfold BSIZE
        omega
      have some : 0 < n := by omega
      have le : n ≤ p.length := by omega
      have inside : bytes.length + n ≤ (bytes.length / BSIZE + 1) * BSIZE := by omega
      have grows : need (bytes.length + n) ≤ need (bytes.length + p.length) :=
        need_mono (by omega)
      refine ((grown.findBlock slot some inside).errors fun _ full => .inr (by omega)).bind ?_
      rintro ⟨b, v', s'⟩ ⟨here, ready, slots, count, room⟩
      dsimp only at here ready slots count room ⊢
      unfold rsect
      by_cases present : b < FSSIZE
      · have there : v'.number s'.disk x ≠ 0 := by
          rw [slots, start_of_blockSlot slot]
          have := Nat.div_mul_le_self bytes.length BSIZE
          omega
        rw [if_pos present]
        subst here
        obtain ⟨written, same⟩ := ready.write slot there le inside
        have length : (bytes ++ p.take n).length = bytes.length + n := by
          rw [List.length_append, List.length_take, Nat.min_eq_left le]
        have next : Grown i nodes c s0 v0 len0 (wsect (v'.number s'.disk x)
            ((s'.disk (v'.number s'.disk x)).fill (bytes.length - bytes.length / BSIZE * BSIZE) n
              fun j => p.getD j 0) s') v' (bytes ++ p.take n) := by
          refine ⟨written, fun y => ?_, ?_, room.mp present, ?_⟩
          · rw [length, ← slots]
            exact not_congr (by rw [← same y]; rfl)
          · rw [length]
            exact count
          · rw [length]
            exact inside.trans (Nat.mul_le_mul_right BSIZE fits)
        have rest := ih next (p := p.drop n) (by rw [List.length_drop]; omega)
        have total : bytes.length + n + (p.length - n) = bytes.length + p.length := by omega
        rw [List.append_assoc, List.take_append_drop, length, List.length_drop, total] at rest
        exact rest
      · rw [if_neg present]
        exact .error (.inr (by omega))
    · rw [if_neg fits]
      refine .error (.inl ?_)
      have := Nat.div_mul_le_self bytes.length BSIZE
      have := Nat.mul_le_mul_right BSIZE (Nat.le_of_not_lt fits)
      omega

end Grown

end Xv6.Mkfs
