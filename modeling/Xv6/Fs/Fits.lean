import Xv6.Lib.Among
import Xv6.Fs.Closed
import Xv6.Fs.Content

/-!
# The transactions of `filewrite`

`filewrite` writes at most `writeMax` bytes in a transaction, so that what it logs fits in the
share of the log that `begin_op` reserves. A transaction that starts inside a block writes to
four of them, of which the first is there already, as the file has no holes. For each of the
others there is a block of the bitmap to log, and once in a transaction the indirect block and
its own block of the bitmap; with the block of the inode these are `MAXOPBLOCKS`.

The count needs nothing of the bitmap or of the owners of blocks. Other processes may do what
they like, but leave the inode alone that is locked here.
-/

namespace Xv6.Fs

open Log (BSIZE Block MAXOPBLOCKS)
open Prog (Safe)
open Finset (card_insert_le card_le_card insert_eq_of_mem singleton_union subset_insert union_comm
  union_empty)

/-! ## What a step logs -/

/-- The same state with nothing in the log. -/
def State.unlogged (s : State) : State := { s with log := { s.log with block := [] } }

/-- The blocks that a step logs: those in the log after it if none were before. -/
def logsOf {β : Type} (f : State → Option (Except Panic (β × State))) (s : State) : Finset Nat :=
  match f s.unlogged with
  | some (.ok (_, s')) => s'.log.block.toFinset
  | _ => ∅

section Logs

variable {α : Type} {s : State}

theorem logsOf_none {f : State → Option (Except Panic (α × State))}
    (keeps : ∀ a s', f s.unlogged = some (.ok (a, s')) → s'.log.block = []) : logsOf f s = ∅ := by
  unfold logsOf
  split
  · next a s' stepped =>
    rw [keeps a s' stepped]
    rfl
  · rfl

theorem record_ok (done : s.record b disk = .ok s') :
    ¬ s.log.outstanding < 1 ∧ s' = s.logged b disk := by
  unfold State.record at done
  split at done
  · cases done
  split at done
  · cases done
  · next outstanding =>
    cases done
    exact ⟨outstanding, rfl⟩

theorem record_unlogged (outstanding : ¬ s.log.outstanding < 1) (disk : Disk) :
    s.unlogged.record b disk = .ok (s.unlogged.logged b disk) := by
  have room : ¬ Log.LOGBLOCKS ≤ s.unlogged.log.block.length := by
    show ¬ Log.LOGBLOCKS ≤ 0
    decide
  have outstanding' : ¬ s.unlogged.log.outstanding < 1 := outstanding
  unfold State.record
  rw [if_neg room, if_neg outstanding']
  rfl

theorem record_stepped
    (stepped : some ((s.record b disk).map fun s => (a, s)) = some (.ok (a', s'))) :
    ¬ s.log.outstanding < 1 ∧ a' = a ∧ s' = s.logged b disk := by
  cases done : s.record b disk with
  | error e =>
    rw [done] at stepped
    cases stepped
  | ok s1 =>
    obtain ⟨outstanding, rfl⟩ := record_ok done
    rw [done] at stepped
    cases stepped
    exact ⟨outstanding, rfl, rfl⟩

theorem logsOf_record (outstanding : ¬ s.log.outstanding < 1)
    (is : f s.unlogged = some ((s.unlogged.record b d).map fun s => (a, s))) :
    logsOf f s = {b} := by
  unfold logsOf
  rw [is, record_unlogged outstanding]
  rfl

end Logs

/-! ## Others -/

def State.view (s : State) (ip : Ip) : Dinode :=
  if (s.itable ip).valid then (s.itable ip).toDinode else s.disk.dinode s.sb (s.itable ip).inum

/-- The inode has no holes. -/
def State.Whole (s : State) (ip : Ip) : Prop := (s.view ip).Full s.disk

/-- What others do to the system while the inode at `ip` is locked here: they leave it and the
numbers of its blocks alone. -/
structure Spares (ip : Ip) (s s' : State) : Prop where
  sb : s'.sb = s.sb
  entry : s'.itable ip = s.itable ip
  view : s'.view ip = s.view ip
  number : ∀ x, (s.view ip).number s'.disk x = (s.view ip).number s.disk x

theorem Spares.refl (ip : Ip) (s : State) : Spares ip s s := ⟨rfl, rfl, rfl, fun _ => rfl⟩

theorem Spares.trans (first : Spares ip s s') (rest : Spares ip s' s'') : Spares ip s s'' where
  sb := rest.sb.trans first.sb
  entry := rest.entry.trans first.entry
  view := rest.view.trans first.view
  number x := by
    have later := rest.number x
    rw [first.view] at later
    exact later.trans (first.number x)

theorem Spares.whole (spares : Spares ip s s') (whole : s.Whole ip) : s'.Whole ip := by
  unfold State.Whole Dinode.Full
  rw [spares.view]
  intro bn below
  obtain ⟨x, slot, there⟩ := whole bn below
  refine ⟨x, slot, ?_⟩
  rw [spares.number x]
  exact there

/-- A program that has the inode at `ip` locked, with the blocks it logs. -/
def onInode (ip : Ip) : Prog.Setting Label State Panic (Finset Nat) where
  rely _ s s' := Spares ip s s'
  note _ f s B := B ∪ logsOf f s
  refl _ s := .refl ip s
  trans _ _ _ _ := .trans

/-! ## What a transaction logs -/

/-- The blocks `B`, with two more if the indirect block is not among them. -/
def charge (v : Inode) (B : Finset Nat) : Nat :=
  B.card + if (v.addrs indirectSlot).toNat ∈ B ∧ v.addrs indirectSlot ≠ 0 then 0 else 2

/-- The entry at `ip` is `v`, and block numbers are `uint`s. -/
structure At (ip : Ip) (v : Inode) (s : State) : Prop where
  entry : s.itable ip = v
  uint : s.sb.size < 2 ^ 32

section Charge

variable {v v' : Inode} {B B' : Finset Nat} {b n : Nat}

theorem card_le_charge (v : Inode) (B : Finset Nat) : B.card ≤ charge v B := Nat.le_add_right _ _

theorem charge_more (same : v'.addrs indirectSlot = v.addrs indirectSlot) (sub : B ⊆ B')
    (card : B'.card ≤ B.card + n) : charge v' B' ≤ charge v B + n := by
  unfold charge
  rw [same]
  by_cases before : (v.addrs indirectSlot).toNat ∈ B ∧ v.addrs indirectSlot ≠ 0
  · rw [if_pos before, if_pos ⟨sub before.1, before.2⟩]
    omega
  · split
    · omega
    · omega

theorem charge_insert (v : Inode) (B : Finset Nat) (b : Nat) :
    charge v (insert b B) ≤ charge v B + 1 :=
  charge_more rfl (subset_insert b B) (card_insert_le b B)

theorem charge_indirect (none : v.addrs indirectSlot = 0) (logged : b ∈ B') (nonzero : b ≠ 0)
    (is : (v'.addrs indirectSlot).toNat = b) (card : B'.card ≤ B.card + 2) :
    charge v' B' ≤ charge v B := by
  have there : v'.addrs indirectSlot ≠ 0 := by
    intro zero
    rw [zero] at is
    exact nonzero is.symm
  unfold charge
  rw [is, none, if_pos ⟨logged, there⟩, if_neg fun h => h.2 rfl]
  omega

theorem charge_entry (is : (v.addrs indirectSlot).toNat = b) (there : v.addrs indirectSlot ≠ 0)
    (sub : B ⊆ B') (card : B'.card ≤ B.card + 2) : charge v (insert b B') ≤ charge v B + 2 := by
  have more := card_insert_le b B'
  unfold charge
  rw [is, if_pos ⟨Finset.mem_insert_self _ _, there⟩]
  by_cases before : b ∈ B
  · rw [if_pos ⟨before, there⟩, insert_eq_of_mem (sub before)]
    omega
  · rw [if_neg fun h => before h.1]
    omega

end Charge

section Safe

variable {ip : Ip} {v : Inode} {s : State} {B : Finset Nat} {M : Nat}

theorem At.spares (at_ : At ip v s) (spares : Spares ip s s') : At ip v s' :=
  ⟨spares.entry.trans at_.entry, spares.sb ▸ at_.uint⟩

theorem act_safe {β : Type} {f : State → Option (Except Panic (β × State))}
    {Q : β → State → Finset Nat → Prop} (here : G B)
    (step : ∀ s', Spares ip s s' → ∀ a s'', f s' = some (.ok (a, s'')) →
      ∃ L, logsOf f s' = L ∧ G (B ∪ L) ∧ ∀ s3, Spares ip s'' s3 → Q a s3 (B ∪ L)) :
    (Prog.atomic label f).Safe (onInode ip) G Q s B := by
  refine .atomic here fun s' spares a s'' stepped => ?_
  obtain ⟨L, logs, rest⟩ := step s' spares a s'' stepped
  have noted : (onInode ip).note label f s' B = B ∪ L := by
    rw [← logs]
    rfl
  rw [noted]
  exact rest

theorem look_safe {β : Type} {g : State → β} {Q : β → State → Finset Nat → Prop}
    {G : Finset Nat → Prop} (here : G B)
    (holds : ∀ s', Spares ip s s' → ∀ s'', Spares ip s' s'' → Q (g s') s'' B) :
    (look g).Safe (onInode ip) G Q s B := by
  refine act_safe here fun s' spares a s'' stepped => ?_
  cases stepped
  refine ⟨∅, logsOf_none ?_, ?_⟩
  · intro a s'' stepped
    cases stepped
    rfl
  · rw [union_empty]
    exact ⟨here, holds s' spares⟩

theorem record_safe {β : Type} {f : State → Option (Except Panic (β × State))} {a : β}
    {disk : State → Disk} (is : ∀ s, f s = some ((s.record b (disk s)).map fun s => (a, s)))
    (at_ : At ip v s) (room : (insert b B).card ≤ M) :
    (Prog.atomic label f).Safe (onInode ip) (·.card ≤ M)
      (fun a' s' B' => a' = a ∧ At ip v s' ∧ B' = insert b B) s B := by
  have now : B.card ≤ M := Nat.le_trans (card_le_card (subset_insert b B)) room
  refine act_safe now fun s' spares a' s'' stepped => ?_
  rw [is] at stepped
  obtain ⟨outstanding, rfl, rfl⟩ := record_stepped stepped
  have at' := at_.spares spares
  have at'' : At ip v (s'.logged b (disk s')) := ⟨at'.entry, at'.uint⟩
  refine ⟨{b}, logsOf_record outstanding (is _), ?_⟩
  rw [union_comm, singleton_union]
  exact ⟨room, fun s3 later => ⟨rfl, at''.spares later, rfl⟩⟩

theorem markFree_safe (at_ : At ip v s) (room : B.card + 1 ≤ M) :
    markFree.Safe (onInode ip) (·.card ≤ M) (fun found s' B' => At ip v s' ∧
      B ⊆ B' ∧ B'.card ≤ B.card + 1 ∧ ∀ b, found = some b → b < 2 ^ 32) s B := by
  refine act_safe (by omega) fun s' spares found s'' stepped => ?_
  have at' := at_.spares spares
  have same : s'.unlogged.freeBlock = s'.freeBlock := rfl
  cases search : s'.freeBlock with
  | none =>
    rw [search] at stepped
    cases stepped
    refine ⟨∅, logsOf_none ?_, ?_⟩
    · intro a s1 stepped
      rw [same, search] at stepped
      cases stepped
      rfl
    · rw [union_empty]
      refine ⟨by omega, fun s3 later => ⟨at'.spares later, Finset.Subset.refl _, Nat.le_succ _, ?_⟩⟩
      intro b none
      cases none
  | some b =>
    rw [search] at stepped
    obtain ⟨outstanding, rfl, rfl⟩ := record_stepped stepped
    have small : b < s'.sb.size := List.mem_range.mp (List.mem_of_find?_eq_some search)
    have uint := at'.uint
    have at'' : At ip v (s'.logged (s'.sb.bblock b) (s'.disk.setUsed s'.sb b true)) :=
      ⟨at'.entry, uint⟩
    have card := card_insert_le (s'.sb.bblock b) B
    refine ⟨{s'.sb.bblock b}, logsOf_record (a := some b)
      (d := s'.unlogged.disk.setUsed s'.sb b true) outstanding ?_, ?_⟩
    · rw [same, search]
      rfl
    rw [union_comm, singleton_union]
    refine ⟨by omega, fun s3 later => ⟨at''.spares later, subset_insert _ _, card, ?_⟩⟩
    intro b' is
    cases is
    omega

theorem balloc_safe (at_ : At ip v s) (room : B.card + 2 ≤ M) :
    balloc.Safe (onInode ip) (·.card ≤ M) (fun b s' B' => At ip v s' ∧ b < 2 ^ 32 ∧ B ⊆ B' ∧
      B'.card ≤ B.card + 2 ∧ (b ≠ 0 → b ∈ B')) s B := by
  refine (markFree_safe at_ (by omega)).bind fun found s1 B1 after => ?_
  obtain ⟨at1, sub, card, number⟩ := after
  cases found with
  | none =>
    refine .pure (by omega) fun s' spares => ?_
    exact ⟨at1.spares spares, by decide, sub, by omega, fun nonzero => absurd rfl nonzero⟩
  | some b =>
    have card2 := card_insert_le b B1
    refine (record_safe (a := ()) (b := b) (fun _ => rfl) at1 (by omega)).bind
      fun _ s2 B2 after => ?_
    obtain ⟨-, at2, rfl⟩ := after
    refine .pure (by omega) fun s' spares => ?_
    exact ⟨at2.spares spares, number b rfl, sub.trans (subset_insert _ _), by omega,
      fun _ => Finset.mem_insert_self _ _⟩

theorem modify_safe {g : Inode → Inode} (at_ : At ip v s) (room : B.card ≤ M) :
    (modifyInode ip g).Safe (onInode ip) (·.card ≤ M)
      (fun _ s' B' => At ip (g v) s' ∧ B' = B) s B := by
  refine act_safe room fun s' spares a s'' stepped => ?_
  cases stepped
  have at' := at_.spares spares
  have at'' : At ip (g v) (s'.modifyInode ip g) := by
    refine ⟨?_, at'.uint⟩
    rw [State.modifyInode_self, at'.entry]
  refine ⟨∅, logsOf_none ?_, ?_⟩
  · intro a s'' stepped
    cases stepped
    rfl
  · rw [union_empty]
    exact ⟨room, fun s3 later => ⟨at''.spares later, rfl⟩⟩

def Inode.assign (v : Inode) (k : AddrSlot) (addr : Nat) : Inode :=
  { v with addrs := Function.update v.addrs k (UInt32.ofNat addr) }

/-- What has been logged for a slot of `addrs`. -/
structure SlotLogs (ip : Ip) (v : Inode) (k : AddrSlot) (B : Finset Nat) (addr : Nat) (s' : State)
    (B' : Finset Nat) : Prop where
  sub : B ⊆ B'
  card : B'.card ≤ B.card + 2
  outcome : v.addrs k ≠ 0 ∧ addr = (v.addrs k).toNat ∧ B' = B ∧ At ip v s' ∨
    v.addrs k = 0 ∧ addr = 0 ∧ At ip v s' ∨
    v.addrs k = 0 ∧ addr ≠ 0 ∧ addr < 2 ^ 32 ∧ addr ∈ B' ∧
      At ip (v.assign k addr) s'

theorem bmapSlot_safe (at_ : At ip v s) (k : AddrSlot) (room : B.card + 2 ≤ M) :
    (bmapSlot ip k).Safe (onInode ip) (·.card ≤ M) (SlotLogs ip v k B) s B := by
  refine (look_safe (Q := fun w s' B' => w = v ∧ At ip v s' ∧ B' = B) (by omega)
    fun s' spares s'' later => ?_).bind fun w s1 B1 after => ?_
  · have at' := at_.spares spares
    exact ⟨at'.entry, at'.spares later, rfl⟩
  obtain ⟨rfl, at1, rfl⟩ := after
  split
  · next zero =>
    refine (balloc_safe at1 room).bind fun addr s2 B2 after => ?_
    obtain ⟨at2, small, sub, card, mem⟩ := after
    split
    · next none =>
      refine .pure (by omega) fun s' spares => ⟨sub, card, ?_⟩
      exact .inr (.inl ⟨zero, rfl, at2.spares spares⟩)
    rename_i some
    refine (modify_safe at2 (by omega)).bind fun _ s3 B3 after => ?_
    obtain ⟨at3, rfl⟩ := after
    refine .pure (by omega) fun s' spares => ⟨sub, card, ?_⟩
    exact .inr (.inr ⟨zero, some, small, mem some, at3.spares spares⟩)
  · next nonzero =>
    refine .pure (by omega) fun s' spares => ⟨Finset.Subset.refl _, Nat.le_add_right _ _, ?_⟩
    exact .inl ⟨nonzero, rfl, rfl, at1.spares spares⟩

/-- What `bmap` has logged, also if the block it returns is logged then. -/
structure MapLogs (ip : Ip) (v : Inode) (B : Finset Nat) (addr : Nat) (s' : State)
    (B' : Finset Nat) : Prop where
  later : ∃ v', At ip v' s' ∧ charge v' B' ≤ charge v B + 2 ∧
    (addr ≠ 0 → charge v' (insert addr B') ≤ charge v B + 2)

theorem bmapEntry_safe {b : Nat} (at_ : At ip v s) (is : (v.addrs indirectSlot).toNat = b)
    (there : v.addrs indirectSlot ≠ 0) (j : Nat) (room : charge v B + 2 ≤ M) :
    (bmapEntry b j).Safe (onInode ip) (·.card ≤ M) (MapLogs ip v B) s B := by
  have le := card_le_charge v B
  refine (look_safe (Q := fun _ s' B' => At ip v s' ∧ B' = B) (by omega)
    fun s' spares s'' later => ⟨(at_.spares spares).spares later, rfl⟩).bind fun a s1 B1 after => ?_
  obtain ⟨at1, rfl⟩ := after
  split
  · refine (balloc_safe at1 (by omega)).bind fun addr s2 B2 after => ?_
    obtain ⟨at2, small, sub, card, mem⟩ := after
    have charged : charge v B2 ≤ charge v B1 + 2 := charge_more rfl sub card
    split
    · next none =>
      refine .pure (Nat.le_trans (card_le_charge v B2) (by omega)) fun s' spares => ?_
      exact ⟨v, at2.spares spares, charged, fun nonzero => absurd rfl nonzero⟩
    rename_i some
    have entry := charge_entry is there sub card
    have le2 := card_le_charge v (insert b B2)
    refine (record_safe (a := ()) (b := b) (fun _ => rfl) at2 (by omega)).bind
      fun _ s3 B3 after => ?_
    obtain ⟨-, at3, rfl⟩ := after
    refine .pure (by omega) fun s' spares => ⟨v, at3.spares spares, entry, fun _ => ?_⟩
    rw [insert_eq_of_mem (Finset.mem_insert_of_mem (mem some))]
    exact entry
  · next there =>
    refine .pure (by omega) fun s' spares => ⟨v, at1.spares spares, by omega, fun _ => ?_⟩
    have := charge_insert v B1 (a.word j)
    omega

theorem bmap_safe (at_ : At ip v s) (bn : Nat) (room : charge v B + 2 ≤ M) :
    (bmap ip bn).Safe (onInode ip) (·.card ≤ M) (MapLogs ip v B) s B := by
  have le := card_le_charge v B
  unfold bmap
  split
  · next direct =>
    refine (bmapSlot_safe at_ _ (by omega)).imp fun addr s' B' after => ?_
    obtain ⟨sub, card, found | none | new⟩ := after
    · obtain ⟨-, -, rfl, at'⟩ := found
      refine ⟨v, at', Nat.le_add_right _ _, fun _ => ?_⟩
      have := charge_insert v B' addr
      omega
    · obtain ⟨-, rfl, at'⟩ := none
      exact ⟨v, at', charge_more rfl sub card, fun nonzero => absurd rfl nonzero⟩
    obtain ⟨-, -, -, mem, at'⟩ := new
    have other : indirectSlot ≠ ⟨bn, Nat.lt_succ_of_lt direct⟩ := by
      intro same
      have : NDIRECT = bn := congrArg Fin.val same
      omega
    have same : (v.assign ⟨bn, Nat.lt_succ_of_lt direct⟩ addr).addrs indirectSlot =
        v.addrs indirectSlot := Function.update_of_ne other ..
    have charged := charge_more same sub card
    refine ⟨_, at', charged, fun _ => ?_⟩
    rw [insert_eq_of_mem mem]
    exact charged
  · split
    · refine (bmapSlot_safe at_ indirectSlot (by omega)).bind fun b s1 B1 after => ?_
      obtain ⟨sub, card, found | none | new⟩ := after
      · obtain ⟨nonzero, is, rfl, at'⟩ := found
        have there : b ≠ 0 := by
          rw [is]
          exact fun zero => nonzero (UInt32.toNat_inj.mp zero)
        rw [if_neg there]
        exact bmapEntry_safe at' is.symm nonzero _ room
      · obtain ⟨-, rfl, at'⟩ := none
        refine .pure (by omega) fun s' spares =>
          ⟨v, at'.spares spares, charge_more rfl sub card, ?_⟩
        exact fun nonzero => absurd rfl nonzero
      · obtain ⟨zero, there, small, mem, at'⟩ := new
        rw [if_neg there]
        have is : ((v.assign indirectSlot b).addrs indirectSlot).toNat = b := by
          unfold Inode.assign
          dsimp only
          rw [Function.update_self, UInt32.toNat_ofNat', Nat.mod_eq_of_lt small]
        have nonzero : (v.assign indirectSlot b).addrs indirectSlot ≠ 0 := by
          intro zero'
          rw [zero'] at is
          exact there is.symm
        have charged : charge (v.assign indirectSlot b) B1 ≤ charge v B :=
          charge_indirect zero mem there is card
        refine (bmapEntry_safe at' is nonzero _ (by omega)).imp fun addr s' B' after => ?_
        obtain ⟨v', at'', more, again⟩ := after
        exact ⟨v', at'', by omega, fun nonzero => Nat.le_trans (again nonzero) (by omega)⟩
    · exact .atomic (by omega) nofun

theorem copyIn_safe {addr o m tot : Nat} {src : Nat → Option UInt8} (at_ : At ip v s)
    (room : (insert addr B).card ≤ M) :
    (copyIn addr o m src tot).Safe (onInode ip) (·.card ≤ M)
      (fun _ s' B' => At ip v s' ∧ (B' = B ∨ B' = insert addr B)) s B := by
  have now : B.card ≤ M := Nat.le_trans (card_le_card (subset_insert addr B)) room
  refine act_safe now fun s' spares a s'' stepped => ?_
  have at' := at_.spares spares
  by_cases short : readable src tot m < m
  · rw [if_pos short] at stepped
    cases stepped
    refine ⟨∅, logsOf_none ?_, ?_⟩
    · intro a s1 stepped
      rw [if_pos short] at stepped
      cases stepped
      rfl
    · rw [union_empty]
      have at'' : At ip v { s' with disk := s'.disk.set addr ((s'.disk addr).fill o
          (readable src tot m) fun j => (src (tot + j)).getD 0) } := ⟨at'.entry, at'.uint⟩
      exact ⟨now, fun s3 later => ⟨at''.spares later, .inl rfl⟩⟩
  · rw [if_neg short] at stepped
    obtain ⟨outstanding, rfl, rfl⟩ := record_stepped stepped
    refine ⟨{addr}, logsOf_record (a := true) (d := s'.unlogged.disk.set addr
      ((s'.unlogged.disk addr).fill o (readable src tot m) fun j => (src (tot + j)).getD 0))
      outstanding ?_, ?_⟩
    · rw [if_neg short]
    · rw [union_comm, singleton_union]
      have at'' : At ip v (s'.logged addr (s'.disk.set addr ((s'.disk addr).fill o
          (readable src tot m) fun j => (src (tot + j)).getD 0))) := ⟨at'.entry, at'.uint⟩
      exact ⟨room, fun s3 later => ⟨at''.spares later, .inr rfl⟩⟩

theorem writeLoop_safe (le : W ≤ M) (fuel off tot : Nat) (at_ : At ip v s)
    (charged : charge v B + 2 * spans off (n - tot) ≤ W) :
    (writeLoop ip src n fuel off tot).Safe (onInode ip) (·.card ≤ M)
      (fun _ s' B' => ∃ v', At ip v' s' ∧ charge v' B' ≤ W) s B := by
  induction fuel generalizing off tot s B v with
  | zero =>
    have := card_le_charge v B
    exact .pure (by omega) fun s' spares => ⟨v, at_.spares spares, by omega⟩
  | succ fuel ih =>
    have card := card_le_charge v B
    unfold writeLoop
    split
    · next more =>
      have step := spans_step off (Nat.sub_pos_of_lt more) rfl
      refine (bmap_safe at_ (off / BSIZE) (by omega)).bind fun addr s1 B1 after => ?_
      obtain ⟨v1, at1, charged1, again⟩ := after
      have card1 := card_le_charge v1 B1
      split
      · exact .pure (by omega) fun s' spares => ⟨v1, at1.spares spares, by omega⟩
      rename_i there
      have again := again there
      have cardAgain := card_le_charge v1 (insert addr B1)
      refine (copyIn_safe at1 (by omega)).bind fun copied s2 B2 after => ?_
      obtain ⟨at2, logged⟩ := after
      have charged2 : charge v1 B2 ≤ charge v B + 2 := by
        rcases logged with rfl | rfl
        · exact charged1
        · exact again
      have card2 := card_le_charge v1 B2
      split
      · refine ih _ _ at2 ?_
        rw [Nat.sub_add_eq]
        omega
      · exact .pure (by omega) fun s' spares => ⟨v1, at2.spares spares, by omega⟩
    · exact .pure (by omega) fun s' spares => ⟨v, at_.spares spares, by omega⟩

theorem bmap_found_safe {bn addr : Nat} {x : BlockSlot} (at_ : At ip v s) (valid : v.valid = true)
    (slot : blockSlot bn = some x) (is : v.toDinode.number s.disk x = addr) (there : addr ≠ 0)
    (room : B.card ≤ M) :
    (bmap ip bn).Safe (onInode ip) (·.card ≤ M)
      (fun addr' s' B' => addr' = addr ∧ At ip v s' ∧ B' = B) s B := by
  have keeps {s s' : State} (at_ : At ip v s) (spares : Spares ip s s')
      (is : v.toDinode.number s.disk x = addr) : v.toDinode.number s'.disk x = addr := by
    have view : s.view ip = v.toDinode := by
      unfold State.view
      rw [at_.entry, if_pos valid]
    have same := spares.number x
    rw [view] at same
    exact same.trans is
  have slotSafe {k : AddrSlot} (nonzero : v.addrs k ≠ 0) :
      (bmapSlot ip k).Safe (onInode ip) (·.card ≤ M) (fun addr' s' B' =>
        addr' = (v.addrs k).toNat ∧ At ip v s' ∧ v.toDinode.number s'.disk x = addr ∧
          B' = B) s B := by
    refine (look_safe (Q := fun w s' B' => w = v ∧ At ip v s' ∧
      v.toDinode.number s'.disk x = addr ∧ B' = B) room fun s' spares s'' later => ?_).bind
      fun w s1 B1 after => ?_
    · have at' := at_.spares spares
      exact ⟨at'.entry, at'.spares later, keeps at' later (keeps at_ spares is), rfl⟩
    · obtain ⟨rfl, at1, is1, rfl⟩ := after
      rw [if_neg nonzero]
      refine .pure room fun s' spares => ?_
      exact ⟨rfl, at1.spares spares, keeps at1 spares is1, rfl⟩
  unfold blockSlot at slot
  unfold bmap
  split
  · next direct =>
    rw [dif_pos direct] at slot
    cases slot
    have nonzero : v.addrs ⟨bn, Nat.lt_succ_of_lt direct⟩ ≠ 0 := by
      intro zero
      have none : v.toDinode.number s.disk (.addr ⟨bn, Nat.lt_succ_of_lt direct⟩) = 0 :=
        congrArg UInt32.toNat zero
      exact there (is.symm.trans none)
    refine (slotSafe nonzero).imp fun addr' s' B' after => ?_
    obtain ⟨rfl, at', is', same⟩ := after
    exact ⟨is', at', same⟩
  · next notDirect =>
    rw [dif_neg notDirect] at slot
    split
    · next inside =>
      rw [dif_pos inside] at slot
      cases slot
      have nonzero : v.addrs indirectSlot ≠ 0 := by
        intro zero
        rw [Dinode.number_entry zero, if_pos rfl] at is
        exact there is.symm
      refine (slotSafe nonzero).bind fun b s1 B1 after => ?_
      obtain ⟨rfl, at1, is1, rfl⟩ := after
      have some : (v.addrs indirectSlot).toNat ≠ 0 := fun zero =>
        nonzero (UInt32.toNat_inj.mp zero)
      rw [if_neg some]
      refine (look_safe (Q := fun a s' B' => a.word (bn - NDIRECT) = addr ∧ At ip v s' ∧ B' = B1)
        room fun s' spares s'' later => ?_).bind fun a s2 B2 after => ?_
      · have entry := keeps at1 spares is1
        rw [Dinode.number_entry rfl, if_neg nonzero] at entry
        exact ⟨entry, (at1.spares spares).spares later, rfl⟩
      · obtain ⟨rfl, at2, rfl⟩ := after
        rw [if_neg there]
        exact .pure room fun s' spares => ⟨rfl, at2.spares spares, rfl⟩
    · next outside =>
      rw [dif_neg outside] at slot
      cases slot

theorem iupdate_safe (room : B.card + 1 ≤ M) :
    (iupdate ip).Safe (onInode ip) (·.card ≤ M) (fun _ _ B' => B'.card ≤ M) s B := by
  refine act_safe (by omega) fun s' spares a s'' stepped => ?_
  obtain ⟨outstanding, -, -⟩ := record_stepped stepped
  refine ⟨{s'.sb.iblock (s'.itable ip).inum}, logsOf_record (a := ())
    (d := s'.disk.setDinode s'.sb (s'.itable ip).inum (s'.itable ip).toDinode) outstanding rfl, ?_⟩
  rw [union_comm, singleton_union]
  have := card_insert_le (s'.sb.iblock (s'.itable ip).inum) B
  exact ⟨by omega, fun _ _ => by omega⟩

theorem growTo_safe {off : Nat} (at_ : At ip v s) (room : B.card ≤ M) :
    (growTo ip off).Safe (onInode ip) (·.card ≤ M) (fun _ _ B' => B' = B) s B := by
  refine (look_safe (Q := fun _ s' B' => At ip v s' ∧ B' = B) room
    fun s' spares s'' later => ⟨(at_.spares spares).spares later, rfl⟩).bind fun w s1 B1 after => ?_
  obtain ⟨at1, rfl⟩ := after
  split
  · exact (modify_safe at1 room).imp fun _ _ _ after => after.2
  · exact .pure room fun _ _ => rfl

theorem spans_chunk (off : Nat) (small : n ≤ writeMax) :
    (off % BSIZE = 0 → spans off n ≤ 3) ∧
      ∀ m, min n (BSIZE - off % BSIZE) = m → spans (off + m) (n - m) ≤ 3 := by
  have three : writeMax = 3 * BSIZE := by decide
  rw [three] at small
  unfold spans
  unfold BSIZE at small ⊢
  refine ⟨fun aligned => ?_, fun m least => ?_⟩
  · split
    · omega
    · omega
  · split
    · omega
    · omega

theorem charge_empty (v : Inode) : charge v ∅ ≤ 2 := by
  unfold charge
  rw [Finset.card_empty]
  split
  · omega
  · omega

/-- The loop of `writei` in a transaction of `filewrite`: nine blocks. -/
theorem writeLoop_fits (at_ : At ip v s) (valid : v.valid = true) (full : v.toDinode.Full s.disk)
    (start : off ≤ v.size.toNat) (small : n ≤ writeMax) :
    (writeLoop ip src n n off 0).Safe (onInode ip) (·.card ≤ MAXOPBLOCKS)
      (fun _ s' B' => ∃ v', At ip v' s' ∧ charge v' B' ≤ 9) s ∅ := by
  have nine : 9 ≤ MAXOPBLOCKS := by decide
  have empty := charge_empty v
  obtain ⟨aligned, rest⟩ := spans_chunk off small
  by_cases edge : off % BSIZE = 0
  · refine writeLoop_safe nine n off 0 at_ ?_
    rw [Nat.sub_zero]
    omega
  cases n with
  | zero => exact .pure (by decide) fun s' spares => ⟨v, at_.spares spares, by omega⟩
  | succ k =>
    have below : off / BSIZE * BSIZE < v.size.toNat := by
      unfold BSIZE at edge ⊢
      omega
    obtain ⟨x, slot, there⟩ := full (off / BSIZE) below
    have few := rest _ rfl
    unfold writeLoop
    rw [if_pos (Nat.succ_pos k), Nat.sub_zero]
    refine (bmap_found_safe at_ valid slot rfl there (by decide)).bind fun addr s1 B1 after => ?_
    obtain ⟨rfl, at1, rfl⟩ := after
    rw [if_neg there]
    have one := charge_insert v ∅ (v.toDinode.number s.disk x)
    have card := card_le_charge v (insert (v.toDinode.number s.disk x) ∅)
    refine (copyIn_safe at1 (by omega)).bind fun copied s2 B2 after => ?_
    obtain ⟨at2, logged⟩ := after
    have charged : charge v B2 ≤ 3 := by
      rcases logged with rfl | rfl
      · omega
      · omega
    have card2 := card_le_charge v B2
    split
    · refine writeLoop_safe nine k _ _ at2 ?_
      rw [Nat.zero_add]
      omega
    · exact .pure (by omega) fun s' spares => ⟨v, at2.spares spares, by omega⟩

/-- **What `writei` logs in a transaction of `filewrite`**, of an inode without holes. -/
theorem writei_fits {src : Nat → Option UInt8} {off n : Nat} (at_ : At ip v s)
    (valid : v.valid = true) (full : v.toDinode.Full s.disk) (small : n ≤ writeMax) :
    (writei ip src off n).Safe (onInode ip) (·.card ≤ MAXOPBLOCKS) (fun _ _ _ => True) s ∅ := by
  have ten : MAXOPBLOCKS = 10 := rfl
  have whole : s.Whole ip ∧ s.view ip = v.toDinode := by
    have view : s.view ip = v.toDinode := by
      unfold State.view
      rw [at_.entry, if_pos valid]
    unfold State.Whole
    rw [view]
    exact ⟨full, rfl⟩
  refine (look_safe (Q := fun w s' B' => w = v ∧ At ip v s' ∧ v.toDinode.Full s'.disk ∧ B' = ∅)
    (by decide) fun s' spares s'' later => ?_).bind fun w s1 B1 after => ?_
  · have both := spares.trans later
    have full'' := both.whole whole.1
    unfold State.Whole at full''
    rw [both.view, whole.2] at full''
    exact ⟨(at_.spares spares).entry, at_.spares both, full'', rfl⟩
  · obtain ⟨rfl, at1, full1, rfl⟩ := after
    split
    · exact .pure (by decide) fun _ _ => trivial
    split
    · exact .pure (by decide) fun _ _ => trivial
    refine (writeLoop_fits at1 valid full1 (by omega) small).bind fun r s2 B2 after => ?_
    obtain ⟨v2, at2, charged⟩ := after
    have card := card_le_charge v2 B2
    refine (growTo_safe at2 (by omega)).bind fun _ s3 B3 same => ?_
    subst same
    exact (iupdate_safe (by omega)).bind fun _ s4 B4 room => .pure room fun _ _ => trivial

end Safe

/-! ## The transactions -/

/-- What is followed of a call of `filewrite`: the blocks that it has logged since `begin_op`,
whether it has the inode locked, and the state in which it has locked it last. -/
structure Tally where
  logged : Finset Nat := ∅
  holds : Bool := false
  start : Option State := none

def Sys.locked (sys : Sys) (ip : Ip) : Bool := (sys.fs.itable ip).locked

def sysLogsOf {β : Type} (g : Sys → Option (Except Panic (β × Sys))) (sys : Sys) : Finset Nat :=
  match g (sys.setFs sys.fs.unlogged) with
  | some (.ok (_, sys')) => sys'.fs.log.block.toFinset
  | _ => ∅

/-- What is followed, after a step that logs the blocks `L`. -/
def Tally.after (h : Tally) (ip : Ip) (label : Label) (L : Finset Nat) (sys sys' : Sys) :
    Tally where
  logged := (if label = .beginOp then ∅ else h.logged) ∪ L
  holds := sys'.locked ip && (h.holds || !sys.locked ip)
  start := if sys'.locked ip && !sys.locked ip then some sys.fs else h.start

/-- What others do: they leave the superblock and the inode of the file alone, and the inode
itself while it is locked here. -/
structure SysSpares (f : Fp) (ip : Ip) (h : Tally) (sys sys' : Sys) : Prop where
  sb : sys'.fs.sb = sys.fs.sb
  file : (sys'.ftable f).ip = (sys.ftable f).ip
  held : h.holds = true → Spares ip sys.fs sys'.fs

/-- A call of `filewrite` for the file `f`, whose inode is at `ip`. -/
def writing (f : Fp) (ip : Ip) : Prog.Setting Label Sys Panic Tally where
  rely := SysSpares f ip
  note label g sys h :=
    match g sys with
    | some (.ok (_, sys')) => h.after ip label (sysLogsOf g sys) sys sys'
    | _ => h
  refl _ _ := ⟨rfl, rfl, fun _ => .refl _ _⟩
  trans _ _ _ _ first rest := ⟨rest.sb.trans first.sb, rest.file.trans first.file,
    fun holds => (first.held holds).trans (rest.held holds)⟩

/-- The inode had no holes when it was locked. -/
def Tally.Whole (h : Tally) (ip : Ip) : Prop := ∀ s, h.start = some s → s.Whole ip

/-- The transaction fits in the log, if the inode had no holes. -/
def Tally.Fits (ip : Ip) (h : Tally) : Prop := h.Whole ip → h.logged.card ≤ MAXOPBLOCKS

/-- No step begins a transaction, or locks or unlocks the inode. -/
def Inner {α : Type} (ip : Ip) (p : FsM α) : Prop :=
  p.Each fun label f => label ≠ .beginOp ∧ ∀ s b s', f s = some (.ok (b, s')) →
    (s'.itable ip).locked = (s.itable ip).locked ∧ s'.sb = s.sb

section Inner

variable {ip : Ip}

theorem inner_writes (ip : Ip) : Writes fun _ p => Inner ip p := by
  have step (label : Label) (inside : label ≠ .beginOp) {M : (Inode → Inode) → Prop}
      (content : ∀ g, M g → OnContent g) : Admits (fun _ p => Inner ip p) M label := fun gives =>
    .atomic ⟨inside, fun s a s' stepped => (gives s _ stepped).changes
      (R := fun s s' => (s'.itable ip).locked = (s.itable ip).locked ∧ s'.sb = s.sb)
      (fun ip' g allowed =>
        ⟨s.modifyInode_field Inode.locked (fun v => by rw [content g allowed]) ip' ip, rfl⟩)
      fun _ _ => ⟨rfl, rfl⟩⟩
  exact .of_gives (.of_gives .pure .bind (step .other nofun fun _ is => is))
    (step .update nofun fun _ => False.elim)

end Inner

section Transaction

variable {f : Fp} {ip : Ip} {sys : Sys} {h : Tally}

theorem sysLogsOf_zoom {β : Type} (g : State → Option (Except Panic (β × State))) (sys : Sys) :
    sysLogsOf (Prog.zoomStep Sys.fs Sys.setFs g) sys = logsOf g sys.fs := by
  unfold sysLogsOf logsOf Prog.zoomStep
  have same : (sys.setFs sys.fs.unlogged).fs = sys.fs.unlogged := rfl
  rw [same]
  cases g sys.fs.unlogged with
  | none => rfl
  | some r =>
    cases r with
    | error e => rfl
    | ok x => rfl

theorem zoomStep_ok {β : Type} {g : State → Option (Except Panic (β × State))} {a : β}
    (stepped : Prog.zoomStep Sys.fs Sys.setFs g sys = some (.ok (a, sys'))) :
    ∃ s', g sys.fs = some (.ok (a, s')) ∧ sys' = Sys.setFs s' sys := by
  unfold Prog.zoomStep at stepped
  split at stepped
  · cases stepped
  · cases stepped
  · next found =>
    cases stepped
    exact ⟨_, found, rfl⟩

theorem sys_safe {β : Type} {g : Sys → Option (Except Panic (β × Sys))}
    {Q : β → Sys → Tally → Prop} (here : G h)
    (step : ∀ sys', SysSpares f ip h sys sys' → ∀ a sys'', g sys' = some (.ok (a, sys'')) →
      ∃ h', h.after ip label (sysLogsOf g sys') sys' sys'' = h' ∧ G h' ∧
        ∀ sys3, SysSpares f ip h' sys'' sys3 → Q a sys3 h') :
    (Prog.atomic label g).Safe (writing f ip) G Q sys h := by
  refine .atomic here fun sys' spares a sys'' stepped => ?_
  obtain ⟨h', noted, rest⟩ := step sys' spares a sys'' stepped
  have same : (writing f ip).note label g sys' h = h' := by
    rw [← noted]
    show (match g sys' with
      | some (.ok (_, sys')) => _
      | _ => h) = _
    rw [stepped]
  rw [same]
  exact rest

theorem Tally.after_still (locked : sys'.locked ip = sys.locked ip)
    (holds : h.holds = true → sys.locked ip = true) :
    h.after ip label L sys sys' =
      { h with logged := (if label = .beginOp then ∅ else h.logged) ∪ L } := by
  obtain ⟨logged, held, start⟩ := h
  unfold Tally.after
  rw [locked]
  cases here : sys.locked ip with
  | true =>
    cases held with
    | true => rfl
    | false => rfl
  | false =>
    cases held with
    | true => exact absurd ((holds rfl).symm.trans here) nofun
    | false => rfl

theorem inner_safe {α : Type} {p : FsM α} (inner : Inner ip p) {L : Finset Nat → Prop}
    {R : α → State → Finset Nat → Prop} (holds : h.holds = true) (locked : sys.locked ip = true)
    (sub : ∀ B, L B → G { h with logged := B }) (safe : p.Safe (onInode ip) L R sys.fs h.logged) :
    (onFs p).Safe (writing f ip) G (fun _ sys' h' => G h' ∧ h'.holds = true ∧
      sys'.locked ip = true ∧ sys'.fs.sb = sys.fs.sb ∧
      (sys'.ftable f).ip = (sys.ftable f).ip) sys h := by
  have still {sys sys' : Sys} {h : Tally} (holds : h.holds = true)
      (spares : SysSpares f ip h sys sys') : sys'.locked ip = sys.locked ip :=
    congrArg Inode.locked (spares.held holds).entry
  induction p generalizing sys h with
  | pure a =>
    have here : G h := sub h.logged safe.1
    refine ⟨here, fun sys' spares => ⟨here, holds, ?_, spares.sb, spares.file⟩⟩
    exact (still holds spares).trans locked
  | act label g k ih =>
    refine ⟨sub h.logged safe.1, fun sys' spares b sys'' stepped => ?_⟩
    have locked' : sys'.locked ip = true := (still holds spares).trans locked
    have fsSpares : Spares ip sys.fs sys'.fs := spares.held holds
    obtain ⟨s'', stepped', rfl⟩ := zoomStep_ok stepped
    obtain ⟨kept, sb⟩ := inner.1.2 _ _ _ stepped'
    have noted : (writing f ip).note label (Prog.zoomStep Sys.fs Sys.setFs g) sys' h =
        { h with logged := h.logged ∪ logsOf g sys'.fs } := by
      show (match Prog.zoomStep Sys.fs Sys.setFs g sys' with
        | some (.ok (_, sys'')) => h.after ip label _ sys' sys''
        | _ => h) = _
      have same : (Sys.setFs s'' sys').locked ip = sys'.locked ip := kept
      rw [stepped, sysLogsOf_zoom]
      dsimp only
      rw [Tally.after_still same fun _ => locked', if_neg inner.1.1]
    rw [noted]
    have locked'' : (Sys.setFs s'' sys').locked ip = true := kept.trans locked'
    refine (ih b (inner.2 b) (h := { h with logged := h.logged ∪ logsOf g sys'.fs }) holds locked''
      sub (safe.2 _ fsSpares _ _ stepped')).imp fun _ sys3 h3 after => ?_
    obtain ⟨fits, holds3, locked3, sb3, file3⟩ := after
    exact ⟨fits, holds3, locked3, sb3.trans (sb.trans spares.sb), file3.trans spares.file⟩

/-- Between two transactions of `filewrite`. -/
structure Resting (f : Fp) (ip : Ip) (sys : Sys) (h : Tally) : Prop where
  fits : h.Fits ip
  free : h.holds = false
  file : (sys.ftable f).ip = ip
  uint : sys.fs.sb.size < 2 ^ 32

theorem Resting.spares (resting : Resting f ip sys h) (spares : SysSpares f ip h sys sys') :
    Resting f ip sys' h :=
  ⟨resting.fits, resting.free, spares.file.trans resting.file, spares.sb ▸ resting.uint⟩

theorem sysLogsOf_none {β : Type} {g : Sys → Option (Except Panic (β × Sys))}
    (keeps : ∀ a sys', g (sys.setFs sys.fs.unlogged) = some (.ok (a, sys')) →
      sys'.fs.log.block = []) : sysLogsOf g sys = ∅ := by
  unfold sysLogsOf
  split
  · next a sys' stepped =>
    rw [keeps a sys' stepped]
    rfl
  · rfl

theorem read_safe {β : Type} {g : Sys → β} {P : Sys → Tally → Prop} {G : Tally → Prop} (here : G h)
    (holds : h.holds = true → ∀ sys, P sys h → sys.locked ip = true) (is : P sys h)
    (stable : ∀ sys sys', P sys h → SysSpares f ip h sys sys' → P sys' h) :
    (Prog.read .other g : SysM β).Safe (writing f ip) G
      (fun a sys' h' => (∃ sys, P sys h ∧ a = g sys) ∧ P sys' h ∧ h' = h) sys h := by
  refine sys_safe here fun sys' spares a sys'' stepped => ?_
  cases stepped
  have is' := stable _ _ is spares
  have none : sysLogsOf (fun sys => some (.ok (g sys, sys)) : Sys → Option (Except Panic (β × Sys)))
      sys' = ∅ := by
    refine sysLogsOf_none fun a sys'' stepped => ?_
    cases stepped
    rfl
  refine ⟨h, ?_, here, fun sys3 later => ⟨⟨sys', is', rfl⟩, stable _ _ is' later, rfl⟩⟩
  rw [none, Tally.after_still rfl fun held => holds held sys' is', if_neg (by decide),
    union_empty]

theorem between_safe {β : Type} {g : Sys → Option (Except Panic (β × Sys))}
    (resting : Resting f ip sys h) (inside : label ≠ .beginOp)
    (keeps : ∀ sys a sys', g sys = some (.ok (a, sys')) → sys'.locked ip = sys.locked ip ∧
      sys'.fs.sb = sys.fs.sb ∧ (sys'.ftable f).ip = (sys.ftable f).ip)
    (none : ∀ sys, sysLogsOf g sys = ∅) :
    (Prog.atomic label g).Safe (writing f ip) (Tally.Fits ip)
      (fun _ sys' h' => Resting f ip sys' h') sys h := by
  refine sys_safe resting.fits fun sys' spares a sys'' stepped => ?_
  obtain ⟨locked, sb, file⟩ := keeps _ _ _ stepped
  have resting' := resting.spares spares
  have resting'' : Resting f ip sys'' h :=
    ⟨resting.fits, resting.free, file.trans resting'.file, sb ▸ resting'.uint⟩
  refine ⟨h, ?_, resting.fits, fun sys3 later => resting''.spares later⟩
  have free : h.holds = true → sys'.locked ip = true := fun held =>
    absurd (held.symm.trans resting.free) nofun
  rw [none, Tally.after_still locked free, if_neg inside, union_empty]

theorem between_zoom {β : Type} {label : Label} {g : State → Option (Except Panic (β × State))}
    (resting : Resting f ip sys h) (inside : label ≠ .beginOp)
    (keeps : ∀ s a s', g s = some (.ok (a, s')) → s'.itable = s.itable ∧ s'.sb = s.sb)
    (none : ∀ s, logsOf g s = ∅) :
    (onFs (.atomic label g)).Safe (writing f ip) (Tally.Fits ip)
      (fun _ sys' h' => Resting f ip sys' h') sys h := by
  refine between_safe resting inside (fun sys a sys' stepped => ?_) fun sys => ?_
  · obtain ⟨s', stepped', rfl⟩ := zoomStep_ok stepped
    obtain ⟨table, sb⟩ := keeps _ _ _ stepped'
    refine ⟨?_, sb, rfl⟩
    show (s'.itable ip).locked = (sys.fs.itable ip).locked
    rw [table]
  · rw [sysLogsOf_zoom]
    exact none _

theorem beginOp_safe (resting : Resting f ip sys h) :
    (onFs beginOp).Safe (writing f ip) (Tally.Fits ip) (fun _ sys' h' => Resting f ip sys' h' ∧
      h'.logged = ∅) sys h := by
  refine sys_safe resting.fits fun sys' spares a sys'' stepped => ?_
  obtain ⟨s', stepped', rfl⟩ := zoomStep_ok stepped
  have resting' := resting.spares spares
  split at stepped'
  · cases stepped'
  cases stepped'
  rw [sysLogsOf_zoom, logsOf_none]
  · have free : h.holds = true → sys'.locked ip = true := fun held =>
      absurd (held.symm.trans resting.free) nofun
    refine ⟨{ h with logged := ∅ }, Tally.after_still rfl free, fun _ => Nat.zero_le _, ?_⟩
    intro sys3 later
    exact ⟨⟨fun _ => Nat.zero_le _, resting.free, later.file.trans resting'.file,
      later.sb ▸ resting'.uint⟩, rfl⟩
  · intro a s' stepped
    split at stepped <;> cases stepped
    rfl

theorem endOp_safe (resting : Resting f ip sys h) :
    (onFs endOp).Safe (writing f ip) (Tally.Fits ip)
      (fun _ sys' h' => Resting f ip sys' h') sys h := by
  refine (between_zoom resting (by decide) (fun s a s' stepped => ?_) fun s => ?_).bind
    fun doCommit sys1 h1 resting1 => ?_
  · split at stepped <;> cases stepped
    exact ⟨rfl, rfl⟩
  · refine logsOf_none fun a s' stepped => ?_
    split at stepped <;> cases stepped
    rfl
  · cases doCommit with
    | true =>
      have other : Label.other ≠ .beginOp := nofun
      refine between_zoom resting1 other (fun s a s' stepped => ?_)
        fun s => logsOf_none fun a s' stepped => ?_
      · cases stepped
        exact ⟨rfl, rfl⟩
      · cases stepped
        rfl
    | false => exact .pure resting1.fits fun sys' spares => resting1.spares spares

/-- In a transaction, with the inode locked and nothing logged. -/
structure Held (f : Fp) (ip : Ip) (sys : Sys) (h : Tally) : Prop where
  holds : h.holds = true
  none : h.logged = ∅
  locked : sys.locked ip = true
  whole : h.Whole ip → sys.fs.Whole ip
  file : (sys.ftable f).ip = ip
  uint : sys.fs.sb.size < 2 ^ 32

theorem Held.spares (held : Held f ip sys h) (spares : SysSpares f ip h sys sys') :
    Held f ip sys' h where
  holds := held.holds
  none := held.none
  locked := (congrArg Inode.locked (spares.held held.holds).entry).trans held.locked
  whole is := (spares.held held.holds).whole (held.whole is)
  file := spares.file.trans held.file
  uint := spares.sb ▸ held.uint

theorem Held.fits (held : Held f ip sys h) : h.Fits ip := by
  intro _
  rw [held.none]
  exact Nat.zero_le _

theorem acquire_safe (resting : Resting f ip sys h) (none : h.logged = ∅) :
    (onFs (acquireInode ip)).Safe (writing f ip) (Tally.Fits ip) (fun _ => Held f ip) sys h := by
  refine sys_safe resting.fits fun sys' spares a sys'' stepped => ?_
  obtain ⟨s', stepped', rfl⟩ := zoomStep_ok stepped
  have resting' := resting.spares spares
  split at stepped'
  · cases stepped'
  split at stepped'
  · cases stepped'
  rename_i free
  cases stepped'
  rw [sysLogsOf_zoom, logsOf_none]
  · have before : sys'.locked ip = false := eq_false_of_ne_true free
    have after : (sys'.setFs (sys'.fs.modifyInode ip fun v =>
        { v with locked := true })).locked ip = true := by
      unfold Sys.locked Sys.setFs
      rw [State.modifyInode_self]
    have view : (sys'.fs.modifyInode ip fun v => { v with locked := true }).view ip =
        sys'.fs.view ip := by
      unfold State.view
      rw [State.modifyInode_self]
      rfl
    refine ⟨{ logged := ∅, holds := true, start := some sys'.fs }, ?_, fun _ => Nat.zero_le _,
      fun sys3 later => Held.spares ⟨rfl, rfl, after, fun whole => ?_, resting'.file,
        resting'.uint⟩ later⟩
    · unfold Tally.after
      rw [after, before, none, resting.free, if_neg (by decide), union_empty]
      rfl
    have full : ((sys'.fs.modifyInode ip fun v => { v with locked := true }).view ip).Full
        sys'.fs.disk := by
      rw [view]
      exact whole _ rfl
    exact full
  · intro a s' stepped
    split at stepped
    · cases stepped
    · split at stepped <;> cases stepped
      rfl

theorem load_safe (held : Held f ip sys h) :
    (onFs (loadInode ip)).Safe (writing f ip) (Tally.Fits ip)
      (fun _ sys' h' => Held f ip sys' h' ∧ (sys'.fs.itable ip).valid = true) sys h := by
  refine sys_safe held.fits fun sys' spares a sys'' stepped => ?_
  obtain ⟨s', stepped', rfl⟩ := zoomStep_ok stepped
  have held' := held.spares spares
  -- the inode as the system sees it is the same, and is in memory now
  have loads : (s'.itable ip).locked = (sys'.fs.itable ip).locked ∧ s'.sb = sys'.fs.sb ∧
      s'.disk = sys'.fs.disk ∧ s'.view ip = sys'.fs.view ip ∧ (s'.itable ip).valid = true := by
    dsimp only at stepped'
    split at stepped'
    · next valid =>
      cases stepped'
      exact ⟨rfl, rfl, rfl, rfl, valid⟩
    rename_i invalid
    split at stepped'
    · cases stepped'
    cases stepped'
    refine ⟨?_, rfl, rfl, ?_, ?_⟩
    · rw [State.modifyInode_self]
    · unfold State.view
      rw [State.modifyInode_self, if_pos rfl, if_neg invalid]
    · rw [State.modifyInode_self]
  obtain ⟨locked, sb, disk, view, valid⟩ := loads
  have still : (Sys.setFs s' sys').locked ip = sys'.locked ip := locked
  have held'' : Held f ip (Sys.setFs s' sys') h := by
    refine ⟨held.holds, held.none, still.trans held'.locked, fun whole => ?_, held'.file, ?_⟩
    · show (s'.view ip).Full s'.disk
      rw [view, disk]
      exact held'.whole whole
    · show s'.sb.size < _
      rw [sb]
      exact held'.uint
  refine ⟨h, ?_, held.fits, fun sys3 later => ⟨held''.spares later, ?_⟩⟩
  · rw [sysLogsOf_zoom, logsOf_none, Tally.after_still still fun _ => held'.locked,
      if_neg (by decide), union_empty]
    intro a s1 stepped
    dsimp only at stepped
    split at stepped
    · cases stepped
      rfl
    · split at stepped <;> cases stepped
      rfl
  · rw [(later.held held.holds).entry]
    exact valid

theorem writei_safe (held : Held f ip sys h) (valid : (sys.fs.itable ip).valid = true)
    (small : n ≤ writeMax) :
    (onFs (writei ip src off n)).Safe (writing f ip) (Tally.Fits ip) (fun _ sys' h' => h'.Fits ip ∧
      h'.holds = true ∧ sys'.locked ip = true ∧ sys'.fs.sb = sys.fs.sb ∧
      (sys'.ftable f).ip = (sys.ftable f).ip) sys h := by
  refine inner_safe ((inner_writes ip).writei ip src off n)
    (L := fun B => h.Whole ip → B.card ≤ MAXOPBLOCKS)
    (R := fun _ _ _ => True) held.holds held.locked (fun B fits => fits) ?_
  rw [held.none]
  by_cases whole : h.Whole ip
  · have full : (sys.fs.itable ip).toDinode.Full sys.fs.disk := by
      have view : sys.fs.view ip = (sys.fs.itable ip).toDinode := if_pos valid
      rw [← view]
      exact held.whole whole
    exact (writei_fits ⟨rfl, held.uint⟩ valid full small).mono (fun B fits _ => fits)
      fun _ _ _ done => done
  · exact .trivial (fun B is => absurd is whole) _ _ _

theorem moveOff_safe (g : File → File) (keeps : ∀ v, (g v).ip = v.ip) (fits : h.Fits ip)
    (locked : h.holds = true → sys.locked ip = true) (file : (sys.ftable f).ip = ip)
    (uint : sys.fs.sb.size < 2 ^ 32) :
    (modifyFile f g).Safe (writing f ip) (Tally.Fits ip) (fun _ sys' h' => h'.Fits ip ∧
      (sys'.ftable f).ip = ip ∧ sys'.fs.sb.size < 2 ^ 32) sys h := by
  refine sys_safe fits fun sys' spares a sys'' stepped => ?_
  cases stepped
  have none : sysLogsOf (fun sys => some (.ok ((), sys.modifyFile f g)) :
      Sys → Option (Except Panic (Unit × Sys))) sys' = ∅ := by
    refine sysLogsOf_none fun a sys'' stepped => ?_
    cases stepped
    rfl
  refine ⟨h, ?_, fits, fun sys3 later => ⟨fits, ?_, ?_⟩⟩
  · have still : (sys'.modifyFile f g).locked ip = sys'.locked ip := rfl
    rw [none]
    rw [Tally.after_still still fun holds => ?_, if_neg (by decide), union_empty]
    exact (congrArg Inode.locked (spares.held holds).entry).trans (locked holds)
  · rw [later.file, Sys.modifyFile_self, keeps, spares.file, file]
  · rw [later.sb]
    show sys'.fs.sb.size < _
    rw [spares.sb]
    exact uint

theorem iunlock_safe (fits : h.Fits ip) (file : (sys.ftable f).ip = ip)
    (uint : sys.fs.sb.size < 2 ^ 32) :
    (onFs (iunlock ip)).Safe (writing f ip) (Tally.Fits ip) (fun _ => Resting f ip) sys h := by
  refine sys_safe fits fun sys' spares a sys'' stepped => ?_
  obtain ⟨s', stepped', rfl⟩ := zoomStep_ok stepped
  split at stepped' <;> cases stepped'
  have after : (sys'.setFs (sys'.fs.modifyInode ip fun v =>
      { v with locked := false })).locked ip = false := by
    unfold Sys.locked Sys.setFs
    rw [State.modifyInode_self]
  refine ⟨{ h with holds := false }, ?_, fits, fun sys3 later => ?_⟩
  · rw [sysLogsOf_zoom, logsOf_none]
    · unfold Tally.after
      rw [after, if_neg (by decide), union_empty]
      rfl
    intro a s1 stepped
    split at stepped
    · cases stepped
      rfl
    · cases stepped
  · exact ⟨fits, rfl, later.file.trans (spares.file.trans file), by
      rw [later.sb]
      show sys'.fs.sb.size < _
      rw [spares.sb]
      exact uint⟩

/-- **A transaction of `filewrite` fits in the log.** -/
theorem writeChunk_safe (resting : Resting f ip sys h) (small : n1 ≤ writeMax) :
    (writeChunk f src i n1).Safe (writing f ip) (Tally.Fits ip) (fun _ => Resting f ip) sys h := by
  have body {sys : Sys} {h : Tally} (resting : Resting f ip sys h) (none : h.logged = ∅) :
      Safe (writing f ip) (Tally.Fits ip) (fun _ => Resting f ip) (do
        let v ← file f
        onFs (ilock v.ip)
        let v ← file f
        let r ← onFs (writei v.ip (fun j => src (i + j)) v.off n1)
        modifyFile f fun v => { v with off := v.off + r.getD 0 }
        onFs (iunlock v.ip)
        return r) sys h := by
    refine (read_safe (P := Resting f ip) resting.fits (fun held sys is => ?_) resting
      fun _ _ resting spares => resting.spares spares).bind fun v sys1 h1 after => ?_
    · exact absurd (held.symm.trans is.free) nofun
    obtain ⟨⟨sys0, resting0, rfl⟩, resting1, rfl⟩ := after
    rw [resting0.file]
    refine ((acquire_safe resting1 none).bind fun _ _ _ held => load_safe held).bind
      fun _ sys2 h2 after => ?_
    obtain ⟨held2, valid2⟩ := after
    refine (read_safe (P := fun sys h => Held f ip sys h ∧ (sys.fs.itable ip).valid = true)
      held2.fits (fun _ sys is => is.1.locked) ⟨held2, valid2⟩ fun sys sys' is spares =>
        ⟨is.1.spares spares, ?_⟩).bind fun v sys3 h3 after => ?_
    · rw [(spares.held is.1.holds).entry]
      exact is.2
    obtain ⟨⟨sys0', ⟨held0, _⟩, rfl⟩, ⟨held3, valid3⟩, rfl⟩ := after
    rw [held0.file]
    refine (writei_safe held3 valid3 small).bind fun r sys4 h4 after => ?_
    obtain ⟨fits4, holds4, locked4, sb4, file4⟩ := after
    refine (moveOff_safe (fun v => { v with off := v.off + r.getD 0 }) (fun _ => rfl) fits4
      (fun _ => locked4) (file4.trans held3.file) (sb4 ▸ held3.uint)).bind
      fun _ sys5 h5 after => ?_
    obtain ⟨fits5, file5, uint5⟩ := after
    refine (iunlock_safe fits5 file5 uint5).bind fun _ sys6 h6 resting6 => ?_
    exact .pure resting6.fits fun sys' spares => resting6.spares spares
  refine (beginOp_safe resting).bind fun _ sys1 h1 after => ?_
  refine (body after.1 after.2).bind fun r sys2 h2 resting2 => ?_
  refine (endOp_safe resting2).bind fun _ sys3 h3 resting3 => ?_
  exact .pure resting3.fits fun sys' spares => resting3.spares spares

theorem writeChunks_safe (fuel i : Nat) (resting : Resting f ip sys h) :
    (writeChunks f src n fuel i).Safe (writing f ip) (Tally.Fits ip)
      (fun _ => Resting f ip) sys h := by
  induction fuel generalizing i sys h with
  | zero => exact .pure resting.fits fun sys' spares => resting.spares spares
  | succ fuel ih =>
    unfold writeChunks
    split
    · refine (writeChunk_safe resting (Nat.min_le_right _ _)).bind fun r sys1 h1 resting1 => ?_
      split
      · exact ih _ resting1
      · exact .pure resting1.fits fun sys' spares => resting1.spares spares
    · exact .pure resting.fits fun sys' spares => resting.spares spares

/-- **Each transaction of `filewrite` fits in the log**: among other processes that leave the
inode alone while it is locked, the blocks that are logged between a `begin_op` and its `end_op`
are at most `MAXOPBLOCKS`, if the file had no holes when the transaction locked its inode. -/
theorem filewrite_fits {src : Nat → Option UInt8} {n : Int} (uint : sys.fs.sb.size < 2 ^ 32)
    {p : SysM (Option Nat)} {sys' : Sys} {h' : Tally}
    (reach : (filewrite f src n).Reaches (writing f (sys.ftable f).ip) sys {} p sys' h')
    (whole : h'.Whole (sys.ftable f).ip) : h'.logged.card ≤ MAXOPBLOCKS := by
  have resting : Resting f (sys.ftable f).ip sys {} := ⟨fun _ => Nat.zero_le _, rfl, rfl, uint⟩
  have safe : (filewrite f src n).Safe (writing f (sys.ftable f).ip) (Tally.Fits (sys.ftable f).ip)
      (fun _ _ _ => True) sys {} := by
    refine (read_safe (P := Resting f (sys.ftable f).ip) resting.fits
      (fun held sys is => ?_) resting
      fun _ _ resting spares => resting.spares spares).bind fun v sys1 h1 after => ?_
    · exact absurd (held.symm.trans is.free) nofun
    obtain ⟨-, resting1, rfl⟩ := after
    split
    · exact .pure resting1.fits fun _ _ => trivial
    split
    · exact .pure resting1.fits fun _ _ => trivial
    · exact .pure resting1.fits fun _ _ => trivial
    · exact .atomic resting1.fits nofun
    · refine (writeChunks_safe _ _ resting1).bind fun i sys2 h2 resting2 => ?_
      exact .pure resting2.fits fun _ _ => trivial
  exact safe.reaches reach whole

end Transaction

def emptyIp : Ip := ⟨1, by decide⟩

def emptyFp : Fp := ⟨0, by decide⟩

/-- An empty file, open for writing. -/
def emptyFile : Sys :=
  let sys := boot smallSb (smallDisk.setDinode smallSb 4 { type := T_FILE, nlink := 1 })
  { sys with
    fs := sys.fs.modifyInode emptyIp fun v => { v with inum := 4, ref := 1 }
    ftable := fun _ => { type := .inode, ref := 1, writable := true, ip := emptyIp } }

/-- A byte is written to an empty file, which takes a block of the bitmap, a block of data and
the block of the inode. -/
theorem filewrite_fits_byte : ∃ p sys' h',
    (filewrite emptyFp (fun _ => some 7) 1).Reaches (writing emptyFp emptyIp) emptyFile
      {} p sys' h' ∧ h'.logged.card = 3 ∧ h'.logged.card ≤ MAXOPBLOCKS := by
  have shown : (Prog.follow (writing emptyFp emptyIp) 15
      (filewrite emptyFp (fun _ => some 7) 1, emptyFile, {})).map (fun x => (x.2.2.logged.card,
        x.2.2.start.all fun s => (s.view emptyIp).size = 0)) = some (3, true) := by
    decide +kernel
  obtain ⟨⟨p, sys', h'⟩, follows, facts⟩ := Option.map_eq_some_iff.mp shown
  obtain ⟨three, empty⟩ := Prod.mk.inj facts
  have reach := Prog.Reaches.follow 15 .refl follows
  have uint : emptyFile.fs.sb.size < 2 ^ 32 := by decide
  refine ⟨p, sys', h', reach, three, filewrite_fits uint reach fun s start bn below => ?_⟩
  rw [start] at empty
  have zero : (s.view emptyIp).size = 0 := of_decide_eq_true empty
  have file : (emptyFile.ftable emptyFp).ip = emptyIp := rfl
  rw [file, zero] at below
  exact absurd below (Nat.not_lt_zero _)

end Xv6.Fs
