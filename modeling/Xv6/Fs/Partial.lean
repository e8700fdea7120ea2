import Xv6.Fs.ByteArray

/-!
# Writes that fail half way

`writei` copies a block at a time from user memory. If the memory cannot be read at some byte,
the copy fails after it has changed the buffer up to there, and the buffer is released without
`log_write`. `writei_keeps_iff` says when the call changes no more than its result says.
-/

namespace Xv6.Fs

open Log (BSIZE Block LOGBLOCKS)
open Ownership (Owned)

/-! ## writei -/

/-- `writei`, with result `r`, has changed no byte of the file but those it reports, and all that
it has changed is in the log. -/
structure WriteKeeps (ip : Ip) (off : Nat) (r : Option Nat) (s s' : State) : Prop where
  bytes : ∀ p, p < (s'.itable ip).size.toNat → ¬ (off ≤ p ∧ p < off + r.getD 0) →
    s'.byteAt ip p = s.byteAt ip p
  logged : ∀ b, s'.disk b ≠ s.disk b → b ∈ s'.log.block

def State.missing (s : State) (ip : Ip) (T : Finset BlockSlot) : Nat :=
  (T.filter fun x => s.number ip x = 0).card

/-- Block `bn` of the inode is there, and it is not in the log. -/
def State.Unlogged (s : State) (ip : Ip) (bn : Nat) : Prop :=
  ∃ x, blockSlot bn = some x ∧ s.number ip x ≠ 0 ∧ s.number ip x ∉ s.log.block

/-- The write gets to a byte of the source that cannot be read, after bytes for the same block that
are not those in the file. One of these bytes is in the file, or the block is not in the log. -/
structure Damages (s : State) (ip : Ip) (src : Nat → Option UInt8) (off n : Nat) : Prop where
  start : off ≤ (s.itable ip).size.toNat
  fits : off + n ≤ MAXFILE * BSIZE
  fails : readable src 0 n < n
  room : s.missing ip (slotsTo (off / BSIZE) ((off + readable src 0 n) / BSIZE + 1)) ≤
    s.freeBlocks.card
  differs : ∃ j < readable src 0 n, (off + j) / BSIZE = (off + readable src 0 n) / BSIZE ∧
    src j ≠ some (s.byteAt ip (off + j)) ∧
    (off + j < (s.itable ip).size.toNat ∨ s.Unlogged ip ((off + j) / BSIZE))

section Writei

variable {s s1 s' : State} {ip : Ip} {src : Nat → Option UInt8} {off n t p b : Nat} {x : BlockSlot}
  {T U : Finset BlockSlot} {L : Set Nat} {size : UInt32}

theorem Settled.byteAt (end_ : Settled ip size s s') (sound : Sound s)
    (loaded : Loaded s ip) (p : Nat) : s'.byteAt ip p = s.byteAt ip p :=
  byteAt_of_data (fun x _ => data_same sound loaded end_.addrs end_.disk x) p

theorem byteAt_number (slot : blockSlot (p / BSIZE) = some x) (there : s.number ip x ≠ 0) :
    s.byteAt ip p = s.disk (s.number ip x) ⟨p % BSIZE, Nat.mod_lt _ (by decide)⟩ := by
  have data : s.data ip x = s.disk (s.number ip x) := if_neg there
  rw [← data]
  exact byteAt_eq slot

theorem disk_of_bytes (slot : blockSlot bn = some x) (there : s.number ip x ≠ 0)
    (number : s'.number ip x = s.number ip x)
    (bytes : ∀ p, p / BSIZE = bn → s'.byteAt ip p = s.byteAt ip p) :
    s'.disk (s.number ip x) = s.disk (s.number ip x) := by
  funext o
  have block : (BSIZE * bn + o.val) / BSIZE = bn := by
    rw [Nat.mul_add_div (by decide), Nat.div_eq_of_lt o.isLt, Nat.add_zero]
  have place : (⟨(BSIZE * bn + o.val) % BSIZE, Nat.mod_lt _ (by decide)⟩ : Fin BSIZE) = o :=
    Fin.ext ((Nat.mul_add_mod _ _ _).trans (Nat.mod_eq_of_lt o.isLt))
  have here : blockSlot ((BSIZE * bn + o.val) / BSIZE) = some x := by
    rw [block]
    exact slot
  have same := bytes _ block
  rwa [byteAt_number here (number ▸ there), byteAt_number here there, number, place] at same

theorem filled_add_missing (s : State) (ip : Ip) (T : Finset BlockSlot) :
    s.filled ip T + s.missing ip T = T.card := by
  rw [Nat.add_comm]
  exact Finset.card_filter_add_card_filter_not _

theorem Fills.room (fills : Fills ip L T s s') (all : ∀ x ∈ T, s'.number ip x ≠ 0) :
    s.missing ip T ≤ s.freeBlocks.card := by
  have none : s'.missing ip T = 0 :=
    Finset.card_eq_zero.mpr (Finset.filter_eq_empty_iff.mpr fun x mem => all x mem)
  have before := filled_add_missing s ip T
  have after := filled_add_missing s' ip T
  have count := fills.count
  omega

theorem Fills.no_room (fills : Fills ip L T s s') (mem : x ∈ T) (none : s'.number ip x = 0)
    (free : s'.freeBlocks = 0) : s.freeBlocks.card < s.missing ip T := by
  have some : 0 < s'.missing ip T :=
    Finset.card_pos.mpr ⟨x, Finset.mem_filter.mpr ⟨mem, none⟩⟩
  have before := filled_add_missing s ip T
  have after := filled_add_missing s' ip T
  have count := fills.count
  rw [free, Multiset.card_zero] at count
  omega

theorem pathLogs_own (sound : Sound s) (loaded : Loaded s ip) (slot : blockSlot bn = some x)
    (there : s.number ip x ≠ 0) : s.number ip x ∉ s.pathLogs ip (slotsTo a bn) := by
  have owns := sound.own_number loaded there
  have alone {y : BlockSlot} (same : s.number ip y = s.number ip x) : y = x := by
    have owns' := sound.own_number (x := y) loaded (same.symm ▸ there)
    rw [same] at owns'
    exact congrArg Prod.snd (sound.owned.inj owns' owns)
  rintro ((fixed | free | indirect) | ⟨y, mem, same⟩)
  · exact absurd (sound.own_data owns).1 (Nat.not_le.mpr fixed)
  · exact sound.owned.outside owns free
  · exact blockSlot_ne_indirect slot (alone indirect.symm).symm
  obtain ⟨bn', below, mem⟩ := Finset.mem_biUnion.mp mem
  rw [alone same] at mem
  have same := blockSlot_inj (slotsOf_other mem (blockSlot_ne_indirect slot)) slot
  have := (Finset.mem_Ico.mp below).2
  omega

theorem Wrote.size_settled (wrote : Wrote ip off src tot s s1) (small : off + t < 2 ^ 32)
    (end_ : Settled ip (UInt32.ofNat (max (s1.itable ip).size.toNat (off + t))) s1 s') :
    (s'.itable ip).size.toNat = max (s.itable ip).size.toNat (off + t) := by
  have same : (s1.itable ip).size = (s.itable ip).size := by rw [wrote.copy]
  have word := (s.itable ip).size.toNat_lt
  rw [end_.size, same, UInt32.toNat_ofNat', Nat.mod_eq_of_lt (by omega)]

theorem Wrote.keeps (wrote : Wrote ip off src t s s1) (loaded : Loaded s ip)
    (traced : Traced L s s1)
    (end_ : Settled ip size s1 s') : WriteKeeps ip off (some t) s s' where
  bytes p _ outside := by
    rw [end_.byteAt wrote.sound (wrote.loaded loaded), wrote.bytes]
    exact if_neg outside
  logged b differs := by
    have within : Traced Set.univ s s' :=
      (traced.mono (Set.subset_univ _)).trans (end_.traced.mono (Set.subset_univ _))
    exact within.changed b differs

theorem Ending.keeps (ending : Ending ip off src n s t s1) (loaded : Loaded s ip)
    (start : off ≤ (s.itable ip).size.toNat) (fits : off + n ≤ MAXFILE * BSIZE)
    (end_ : Settled ip (UInt32.ofNat (max (s1.itable ip).size.toNat (off + t))) s1 s')
    (undamaged : ¬ Damages s ip src off n) : WriteKeeps ip off (some t) s s' := by
  cases ending with
  | done all advances => exact advances.toWrote.keeps loaded advances.fills.traced end_
  | full past less slot none free wrote fills => exact wrote.keeps loaded fills.traced end_
  | @cut s2 _ _ x block past less same first slot fills all writes log number wrote =>
    have loaded1 := wrote.loaded loaded
    have small : off + n < 2 ^ 32 := Nat.lt_of_le_of_lt fits (by decide)
    have size := wrote.size_settled (by omega) end_
    rw [← same] at fills all
    have damage := fun j below inBlock other visible =>
      undamaged ⟨start, fits, less, fills.room all, j, below, inBlock, other, visible⟩
    -- the bytes up to the one that fails are those of the file
    have there (j : Nat) (below : j < readable src 0 n)
        (visible : off + j < (s.itable ip).size.toNat ∨ s.Unlogged ip ((off + j) / BSIZE))
        (inBlock : (off + j) / BSIZE = (off + readable src 0 n) / BSIZE) :
        (src j).getD 0 = s.byteAt ip (off + j) := by
      by_contra differ
      refine damage j below inBlock (fun is => differ ?_) visible
      rw [is]
      rfl
    refine ⟨fun p inside outside => ?_, fun b differs => ?_⟩
    · rw [end_.byteAt wrote.sound loaded1, wrote.bytes]
      split
      · next written =>
        have outside : ¬ (off ≤ p ∧ p < off + t) := outside
        have is : off + (p - off) = p := by omega
        have := there (p - off) (by omega) (.inl (by omega)) (by
          unfold BSIZE at same ⊢
          omega)
        rwa [is] at this
      · rfl
    · by_cases later : s'.disk b = s1.disk b
      · refine end_.traced.sub ?_
        rw [log]
        rw [later] at differs
        by_cases here : b = s2.number ip x
        · by_contra unlogged
          rw [here] at differs unlogged
          rcases fills.number x with kept | ⟨-, -, -, logged⟩
          · have low : off / BSIZE ≤ (off + t) / BSIZE :=
              Nat.div_le_div_right (Nat.le_add_right _ _)
            have there' : s.number ip x ≠ 0 := kept ▸ all x (slotsTo_mem slot low (by omega))
            rw [kept] at differs unlogged
            refine differs (disk_of_bytes slot there' ((number x).trans kept) fun p inBlock => ?_)
            rw [wrote.bytes]
            split
            · next written =>
              have is : off + (p - off) = p := by omega
              have := there (p - off) (by omega) (.inr ⟨x, by rw [is, inBlock]; exact slot, there',
                fun mem => unlogged (fills.traced.sub mem)⟩) (by rw [is, inBlock, same])
              rwa [is] at this
            · rfl
          · exact unlogged logged
        · rw [writes.disk, Disk.set_other _ _ here] at differs
          exact fills.traced.changed b differs
      · exact end_.traced.changed b later

theorem Ending.damages (ending : Ending ip off src n s t s1) (sound : Sound s)
    (loaded : Loaded s ip)
    (end_ : Settled ip (UInt32.ofNat (max (s1.itable ip).size.toNat (off + t))) s1 s')
    (damages : Damages s ip src off n) : ¬ WriteKeeps ip off (some t) s s' := by
  intro keeps
  obtain ⟨start, fits, fails, room, j, below, inBlock, other, visible⟩ := damages
  cases ending with
  | done all advances => exact absurd fails (by omega)
  | full past less slot none free wrote fills =>
    have small : (off + t) / BSIZE + 1 ≤ (off + readable src 0 n) / BSIZE + 1 :=
      Nat.add_le_add_right (Nat.div_le_div_right (Nat.add_le_add_left past off)) 1
    have low : off / BSIZE ≤ (off + t) / BSIZE := Nat.div_le_div_right (Nat.le_add_right _ _)
    have short := fills.no_room (slotsTo_mem slot low (Nat.lt_succ_self _)) none free
    have fewer : s.missing ip (slotsTo (off / BSIZE) _) ≤ _ :=
      Finset.card_le_card (Finset.filter_subset_filter _ (slotsTo_mono small))
    exact absurd room (Nat.not_le.mpr (Nat.lt_of_lt_of_le short fewer))
  | @cut s2 _ _ x block past less same first slot fills all writes log number wrote =>
    have loaded1 := wrote.loaded loaded
    have small : off + n < 2 ^ 32 := Nat.lt_of_le_of_lt fits (by decide)
    have size := wrote.size_settled (by omega) end_
    have differs : s'.byteAt ip (off + j) ≠ s.byteAt ip (off + j) := by
      rw [end_.byteAt wrote.sound loaded1, wrote.bytes, if_pos (by omega), Nat.add_sub_cancel_left]
      have there := (readable_spec src 0 n).1 j below
      rw [Nat.zero_add] at there
      obtain ⟨a, is⟩ := Option.isSome_iff_exists.mp there
      rw [is] at other ⊢
      exact fun same => other (congrArg some same)
    rcases visible with inside | ⟨y, slot', there, unlogged⟩
    · refine differs (keeps.bytes (off + j) (by omega) ?_)
      show ¬ (off ≤ off + j ∧ off + j < off + t)
      unfold BSIZE at first inBlock same
      omega
    rw [inBlock, same, slot] at slot'
    cases slot'
    have owns := sound.own_number loaded there
    have isData := (sound.own_data owns).1
    have kept : s1.number ip x = s.number ip x := wrote.kept x there
    have number' : s'.number ip x = s.number ip x :=
      (number_same wrote.sound loaded1 end_.addrs end_.disk x).trans kept
    have changed : s'.disk (s.number ip x) ≠ s.disk (s.number ip x) := by
      intro same'
      have here : blockSlot ((off + j) / BSIZE) = some x := by
        rw [inBlock, same]
        exact slot
      refine differs ?_
      rw [byteAt_number here there, byteAt_number here (number'.symm ▸ there), number', same']
    have logged := keeps.logged _ changed
    rcases end_.traced.within _ logged with mem | fixed
    · rw [log] at mem
      rcases fills.traced.within _ mem with old | new
      · exact unlogged old
      · exact pathLogs_own sound loaded slot there new
    · have fixed : s.number ip x < s1.sb.dataStart := fixed
      rw [wrote.sb] at fixed
      omega

/-- A write changes no more than it reports, and logs all that it changes, unless it gets to a
byte of the source that cannot be read after others for the same block. -/
theorem writei_keeps_iff (sound : Sound s) (loaded : Loaded s ip) {r : Option Nat}
    (returns : (writei ip src off n).run s = some (.ok (r, s'))) :
    WriteKeeps ip off r s s' ↔ ¬ Damages s ip src off n := by
  have ends : (writei ip src off n).Ends (fun _ => True)
      (fun r s' => WriteKeeps ip off r s s' ↔ ¬ Damages s ip src off n) s := by
    have refused : WriteKeeps ip off none s s :=
      ⟨fun _ _ _ => rfl, fun b differs => absurd rfl differs⟩
    by_cases start : off > (s.itable ip).size.toNat ∨ off + n ≥ 2 ^ 32
    · refine .after_read ?_
      rw [if_pos start]
      refine iff_of_true refused fun damages => ?_
      have := damages.start
      have small : off + n < 2 ^ 32 := Nat.lt_of_le_of_lt damages.fits (by decide)
      omega
    by_cases fits : off + n > MAXFILE * BSIZE
    · refine .after_read ?_
      rw [if_neg start, if_pos fits]
      exact iff_of_true refused fun damages => absurd damages.fits (by omega)
    refine (writei_cut sound loaded (by omega) (by omega)).mono (fun _ _ => trivial) ?_
    rintro _ _ ⟨t, s1, s2, rfl, ending, rfl, resized⟩
    obtain ⟨tot, wrote⟩ := ending.wrote
    have end_ := settled wrote.sound (wrote.loaded loaded) resized
    constructor
    · exact fun keeps damages => ending.damages sound loaded end_ damages keeps
    · exact ending.keeps loaded (by omega) (by omega) end_
  have after := ends.run
  rw [returns] at after
  exact after

end Writei

/-! ## A source that ends in a block -/

/-- `smallDisk` with a file of three bytes, in block 7. -/
def fileDisk : Disk :=
  ((smallDisk.setUsed smallSb 7 true).set 7 fun j => if j.val < 3 then 0x61 else 0).setDinode
    smallSb 4
    { type := T_FILE, major := 0, minor := 0, nlink := 1, size := 3
      addrs := fun k => if k.val = 0 then 7 else 0 }

/-- The system with this file read, in a transaction. -/
def fileRead : State where
  sb := smallSb
  disk := fileDisk
  log := { outstanding := 1 }
  itable e := if e.val = 0 then
    { fileDisk.dinode smallSb 4 with inum := 4, ref := 1, valid := true } else {}

/-- Two bytes, and the second cannot be read. -/
def brokenSource (j : Nat) : Option UInt8 := if j = 0 then some 0x7a else none

theorem fileRead_sound : Sound fileRead ∧ Loaded fileRead rootIp := by
  have first {e : Ip} (used : 0 < (fileRead.itable e).ref) : e.val = 0 := by
    by_contra other
    simp [fileRead, other] at used
  have direct : fileRead.direct =
      [((1, .addr 0), 4), ((2, .addr 0), 5), ((3, .addr 0), 6), ((4, .addr 0), 7)] := by
    decide +kernel
  refine ⟨sound_of_direct ⟨by decide, by decide, by decide⟩ (fun e e' used used' _ => ?_)
    (fun {e} used => ?_) (by decide +kernel) (by rw [direct]; decide)
      (by rw [direct]; decide +kernel)
    (by decide +kernel), by decide, rfl, by decide +kernel⟩
  · exact Fin.ext ((first used).trans (first used').symm)
  · unfold fileRead
    dsimp only
    rw [if_pos (first used)]
    decide

/-- The call says that it has written nothing. The first byte of the file is another one, in a
buffer that is not in the log. -/
theorem writei_cut_changes : Sound fileRead ∧ Loaded fileRead rootIp ∧
    ∃ s', (writei rootIp brokenSource 0 2).run fileRead = some (.ok (some 0, s')) ∧
      fileRead.byteAt rootIp 0 = 0x61 ∧ s'.byteAt rootIp 0 = 0x7a ∧
      7 ∉ s'.log.block ∧ ¬ WriteKeeps rootIp 0 (some 0) fileRead s' := by
  have shown : ((writei rootIp brokenSource 0 2).run fileRead).map (fun r => r.toOption.map fun y =>
      (y.1, y.2.byteAt rootIp 0, decide (7 ∈ y.2.log.block), (y.2.itable rootIp).size)) =
      some (some (some 0, 0x7a, false, 3)) := by
    decide +kernel
  have before : fileRead.byteAt rootIp 0 = 0x61 := by decide +kernel
  obtain ⟨r, run, ended⟩ := Option.map_eq_some_iff.mp shown
  obtain ⟨y, result, shown⟩ := Option.map_eq_some_iff.mp ended
  cases r with
  | error e => cases result
  | ok z =>
    cases result
    simp only [Prod.mk.injEq, decide_eq_false_iff_not] at shown
    obtain ⟨count, byte, unlogged, size⟩ := shown
    refine ⟨fileRead_sound.1, fileRead_sound.2, y.2, by rw [run, ← count],
      before, byte, unlogged, ?_⟩
    intro keeps
    have same := keeps.bytes 0 (by rw [size]; decide) (by decide)
    rw [before, byte] at same
    exact absurd same (by decide)

/-- Without the second byte the call writes what it says. -/
theorem writei_keeps_iff_whole : ∃ s',
    (writei rootIp brokenSource 0 1).run fileRead = some (.ok (some 1, s')) ∧
      WriteKeeps rootIp 0 (some 1) fileRead s' := by
  have shown : ((writei rootIp brokenSource 0 1).run fileRead).map
      (fun r => r.toOption.map Prod.fst) = some (some (some 1)) := by
    decide +kernel
  obtain ⟨r, run, ended⟩ := Option.map_eq_some_iff.mp shown
  obtain ⟨y, result, count⟩ := Option.map_eq_some_iff.mp ended
  cases r with
  | error e => cases result
  | ok z =>
    cases result
    have run : (writei rootIp brokenSource 0 1).run fileRead = some (.ok (some 1, y.2)) := by
      rw [run, ← count]
    refine ⟨y.2, run, (writei_keeps_iff fileRead_sound.1 fileRead_sound.2 run).mpr
      fun damages => ?_⟩
    exact absurd damages.fails (by decide)

end Xv6.Fs
