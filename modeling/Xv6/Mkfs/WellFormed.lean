import Xv6.Mkfs.Image

/-!
# Images are well formed

What the kernel relies on when it finds an image: inodes have all their blocks, blocks belong
to one inode and are marked as used, and the root directory names allocated inodes.

`mkfs` rounds the size of the root directory up to the next block, also where the entries fill
the last block; then the directory has no block for the end of it. It does not count the inodes
that it allocates either.
-/

namespace Xv6.Mkfs

open Log (BSIZE Block)
open Fs (Disk Dinode ROOTINO MAXFILE DIRSIZ IPB BPB T_DIR T_FILE mkDirent dot dotdot BlockSlot
  blockSlot blockSlot_of_lt direntCount direntInum sizeofDirent cname)
open Outcome (Ends)
open Function (update update_of_ne update_self)

/-- Entry `k` of the root directory. -/
def rootEntry (d : Disk) (k : Nat) : List UInt8 :=
  (((d.dinode sb ROOTINO).content d).drop (sizeofDirent * k)).take sizeofDirent

/-- What the kernel relies on. -/
structure WellFormed (s : State) : Prop where
  full : ∀ i, i < NINODES → (s.disk.dinode sb i).Full s.disk
  data : ∀ i x b, i < NINODES → (s.disk.dinode sb i).owns s.disk x = some b →
    nmeta ≤ b ∧ b < FSSIZE ∧ s.disk.used sb b = true
  distinct : ∀ i x j y b, i < NINODES → j < NINODES → (s.disk.dinode sb i).owns s.disk x = some b →
    (s.disk.dinode sb j).owns s.disk y = some b → i = j ∧ x = y
  apart : ∀ i, i < s.freeinode → sb.iblock i < sb.bmapstart
  entries : ∀ k, k < direntCount (s.disk.dinode sb ROOTINO).size.toNat →
    direntInum (rootEntry s.disk k) ≠ 0 → direntInum (rootEntry s.disk k) < NINODES ∧
      (s.disk.dinode sb (direntInum (rootEntry s.disk k))).type ≠ 0
  reads : ∀ (t : Fs.State) (ip : Fs.Ip) (dst : Nat → Bool) (off n i : Nat), t.disk = s.disk →
    i < NINODES → (t.itable ip).toDinode = s.disk.dinode sb i →
    (Fs.readi ip dst off n).Ends (fun _ => False) (fun _ t' => t' = t) t

/-- The image of `files`, with the inodes `nodes`. -/
structure Built (files : List Input) (s : State) (nodes : Nat → Dinode) : Prop where
  laid : Laid nodes s.disk s.freeblock
  room : s.freeblock ≤ FSSIZE
  super : s.disk 1 = superblock
  stored : ∀ i, i < places → s.disk.dinode sb i = nodes i
  holds : ∀ i, Holds (nodes i) s.disk (contents files i)
  short : ∀ i, (contents files i).length ≤ MAXFILE * BSIZE
  size : ∀ i, i ≠ ROOTINO → (nodes i).size.toNat = (contents files i).length
  rootSize : (nodes ROOTINO).size.toNat = ((contents files ROOTINO).length / BSIZE + 1) * BSIZE
  kind : ∀ i, 0 < i → i < files.length + 2 →
    (nodes i).type = if i = ROOTINO then T_DIR else T_FILE
  unused : ∀ i, i = 0 ∨ files.length + 2 ≤ i → nodes i = {}
  used : ∀ b, b < FSSIZE → s.disk.used sb b = decide (b < s.freeblock)

/-! ## The finished image -/

section Built

variable {files : List Input} {s : State} {nodes : Nat → Dinode}

theorem bit_bitmap (inside : b < BPB) (used : Nat) : (bitmap used).bit b = decide (b < used) := by
  induction used with
  | zero => simp [bitmap, Bytes.bit, Bytes.byte]
  | succ used ih =>
    have step : bitmap (used + 1) = (bitmap used).setBit used true := by
      unfold bitmap
      rw [List.range_succ, List.foldl_append]
      rfl
    rw [step]
    by_cases here : b = used
    · subst here
      have byte : b / 8 < BSIZE := Nat.div_lt_of_lt_mul (Nat.mul_comm BSIZE 8 ▸ inside)
      rw [Bytes.bit_setBit_self _ _ byte, decide_eq_true (Nat.lt_succ_self b)]
    · rw [Bytes.bit_setBit_other _ _ here, ih]
      exact decide_eq_decide.mpr (by omega)

theorem Image.built (image : Image s nodes (contents files))
    (inodes : s.freeinode = files.length + 2) :
    ∃ nodes', Built files (finished s nodes) nodes' := by
  generalize root : ({ nodes ROOTINO with
    size := UInt32.ofNat (((nodes ROOTINO).size.toNat / BSIZE + 1) * BSIZE) } : Dinode) = v
  have rootInside : ROOTINO < places := by decide
  have area := iblock_lt rootInside
  have low := bmapstart_lt
  have far := one_lt_iblock ROOTINO
  have addrs : v.addrs = (nodes ROOTINO).addrs := by rw [← root]
  have type : v.type = (nodes ROOTINO).type := by rw [← root]
  have self : update nodes ROOTINO (nodes ROOTINO) = nodes := Function.update_eq_self ..
  have disk : (finished s nodes).disk =
      (s.disk.setDinode sb ROOTINO v).set sb.bmapstart (bitmap s.freeblock) := by
    rw [← root]
    rfl
  have other {b : Nat} (notInodes : b ≠ sb.iblock ROOTINO) (notBitmap : b ≠ sb.bmapstart) :
      (finished s nodes).disk b = s.disk b := by
    rw [disk, Disk.set_other _ _ notBitmap]
    exact Disk.set_other _ _ notInodes
  obtain ⟨laid, keeps⟩ := ((self.symm ▸ image.laid :
    Laid (update nodes ROOTINO (nodes ROOTINO)) _ _).addrs addrs).frame
      fun b (above : nmeta ≤ b) => other (b := b) (by omega) (by omega)
  refine ⟨update nodes ROOTINO v, laid, image.room, ?_, fun i inside => ?_, fun i => ?_,
    image.short, fun i notRoot => ?_, ?_, fun i positive below => ?_, fun i away => ?_,
      fun b inside => ?_⟩
  · have bitmapFar : 1 ≠ sb.bmapstart := by decide
    exact (other (by omega) bitmapFar).trans image.super
  · have before := iblock_lt inside
    have written : (finished s nodes).disk.dinode sb i =
        (s.disk.setDinode sb ROOTINO v).dinode sb i := by
      refine Disk.dinode_congr fun w _ => ?_
      rw [disk, Disk.set_other _ _ (by omega)]
    rw [written]
    by_cases here : i = ROOTINO
    · subst here
      rw [update_self, Disk.dinode_setDinode_self]
    · rw [update_of_ne here, Disk.dinode_setDinode_other _ here, image.stored i inside]
  · refine keeps i _ ?_
    by_cases here : i = ROOTINO
    · subst here
      exact (image.holds ROOTINO).addrs addrs
    · rw [update_of_ne here]
      exact image.holds i
  · rw [update_of_ne notRoot]
    exact image.size i
  · have short := image.short ROOTINO
    have bound : (contents files ROOTINO).length / BSIZE ≤ MAXFILE := by
      refine Nat.div_le_of_le_mul ?_
      rwa [Nat.mul_comm]
    rw [update_self, ← root]
    rw [image.size ROOTINO]
    refine UInt32.toNat_ofNat_of_lt' (Nat.lt_of_le_of_lt
      (Nat.mul_le_mul_right BSIZE (Nat.succ_le_succ bound)) ?_)
    decide
  · by_cases here : i = ROOTINO
    · subst here
      rw [update_self, type]
      exact image.kind _ positive (by omega)
    · rw [update_of_ne here]
      exact image.kind i positive (by omega)
  · have here : i ≠ ROOTINO := by
      rintro rfl
      unfold ROOTINO at away
      omega
    rw [update_of_ne here]
    exact image.unused i (away.imp_right fun above => inodes ▸ above)
  · have inBitmap : b < BPB := Nat.lt_trans inside (by decide)
    have block : sb.bblock b = sb.bmapstart := by
      unfold Fs.Superblock.bblock
      rw [Nat.div_eq_of_lt inBitmap, Nat.zero_add]
    unfold Disk.used
    rw [block, disk, Disk.set_self, Nat.mod_eq_of_lt inBitmap]
    exact bit_bitmap inBitmap _

theorem main_built (accepted : main files = .ok s) (inside : files.length + 2 ≤ places) :
    ∃ nodes, Built files s nodes := by
  have ends := main_ends files inside
  rw [accepted] at ends
  obtain ⟨s1, nodes, image, inodes, rfl⟩ := ends.value
  exact image.built inodes

theorem main_ok (fits : Fits files) (inside : files.length + 2 ≤ places) :
    ∃ s, main files = .ok s := by
  have ends := main_ends files inside
  cases run : main files with
  | error e =>
    rw [run] at ends
    exact absurd fits ends.failure
  | ok s => exact ⟨s, rfl⟩

end Built

/-! ## The number of inodes

It is the number of files and the root also where `mkfs` runs out of inode blocks. -/

section Inodes

variable {files : List Input} {s : State}

theorem findBlock_inodes (fbn : Nat) (v : Dinode) (s : State) :
    Ends (fun _ => True) (fun next => next.2.2.freeinode = s.freeinode) (findBlock fbn v s) := by
  have slot (k : Fs.AddrSlot) : (fillSlot k v s).2.freeinode = s.freeinode := by
    unfold fillSlot
    split <;> rfl
  unfold findBlock
  split
  · exact .ok (slot _)
  refine (show Ends _ (fun next => next.2.freeinode = s.freeinode) (fillEntry _ _ _) from ?_).bind
    fun next same => .ok same
  refine (Ends.trivial _).bind fun indirect _ => ?_
  split
  · exact .ok (slot _)
  · exact .ok (slot _)

theorem appendLoop_inodes (fuel : Nat) (p : List UInt8) (off : Nat) (v : Dinode) (s : State) :
    Ends (fun _ => True) (fun next => next.2.2.freeinode = s.freeinode)
      (appendLoop fuel p off v s) := by
  induction fuel generalizing p off v s with
  | zero => exact .ok rfl
  | succ fuel ih =>
    unfold appendLoop
    split
    · exact .ok rfl
    dsimp only
    split
    · refine (findBlock_inodes _ v s).bind fun next same => ?_
      refine (Ends.trivial _).bind fun buf _ => ?_
      exact (ih _ _ _ _).imp fun _ eq => eq.trans same
    · exact .error True.intro

theorem iappend_inodes (inum : Nat) (p : List UInt8) (s : State) :
    Ends (fun _ => True) (fun next => next.freeinode = s.freeinode) (iappend inum p s) := by
  refine (Ends.trivial _).bind fun v _ => ?_
  refine (appendLoop_inodes _ _ _ v s).bind fun next same => ?_
  exact (Ends.trivial _).bind fun _ _ => .ok same

theorem ialloc_inodes (type : UInt16) (s : State) :
    Ends (fun _ => True) (fun next => next.2.freeinode = s.freeinode + 1) (ialloc type s) := by
  refine (show Ends _ (fun next => next.freeinode = s.freeinode + 1) _ from ?_).bind
    fun next same => .ok same
  exact (Ends.trivial _).bind fun _ _ => .ok rfl

theorem appendChunks_inodes (inum : Nat) (chunks : List (List UInt8)) (s : State) :
    Ends (fun _ => True) (fun next => next.freeinode = s.freeinode)
      (appendChunks inum chunks s) := by
  induction chunks generalizing s with
  | nil => exact .ok rfl
  | cons chunk chunks ih =>
    exact (iappend_inodes inum chunk s).bind fun s1 same => (ih s1).imp fun _ eq => eq.trans same

theorem addFile_inodes (f : Input) (s : State) :
    Ends (fun _ => True) (fun next => next.freeinode = s.freeinode + 1) (addFile f s) := by
  unfold addFile
  split
  · exact .error True.intro
  dsimp only
  split
  · refine (ialloc_inodes T_FILE s).bind fun next one => ?_
    refine (iappend_inodes _ _ _).bind fun s1 same => ?_
    exact (appendChunks_inodes _ _ s1).imp fun _ eq => (eq.trans same).trans one
  · exact .error True.intro

theorem addFiles_inodes (files : List Input) (s : State) :
    Ends (fun _ => True) (fun next => next.freeinode = s.freeinode + files.length)
      (addFiles files s) := by
  induction files generalizing s with
  | nil => exact .ok rfl
  | cons f files ih =>
    refine (addFile_inodes f s).bind fun s1 one => (ih s1).imp fun _ eq => ?_
    rw [eq, one, List.length_cons]
    omega

theorem main_inodes (accepted : main files = .ok s) : s.freeinode = files.length + 2 := by
  have ends : Ends (fun _ => True) (fun next => next.freeinode = files.length + 2)
      (main files) := by
    refine (ialloc_inodes T_DIR zeroed).bind fun next one => ?_
    dsimp only
    split
    · refine (iappend_inodes _ _ _).bind fun s1 same1 => ?_
      refine (iappend_inodes _ _ _).bind fun s2 same2 => ?_
      refine (addFiles_inodes files s2).bind fun s3 more => ?_
      have count : s3.freeinode = files.length + 2 := by
        rw [more, same2, same1, one]
        exact Nat.add_comm 2 _
      refine (show Ends _ (fun next => next.freeinode = files.length + 2)
        (fixRoot _ s3) from ?_).bind fun s4 same4 => ?_
      · exact (Ends.trivial _).bind fun _ _ => (Ends.trivial _).bind fun _ _ => .ok count
      · unfold balloc
        split
        · exact .ok same4
        · exact .error True.intro
    · exact .error True.intro
  rw [accepted] at ends
  exact ends.value

end Inodes

/-! ## The root directory -/

section Root

theorem mkDirent_length (inum : Nat) (name : List UInt8) :
    (mkDirent inum name).length = sizeofDirent := by
  have short : (cname name).length ≤ DIRSIZ :=
    (List.takeWhile_prefix _).length_le.trans (List.length_take_le _ _)
  have size : sizeofDirent = 2 + DIRSIZ := rfl
  simp only [mkDirent, List.length_append, List.length_cons, List.length_nil, List.length_replicate]
  omega

theorem direntInum_mkDirent (small : inum < 2 ^ 16) (name : List UInt8) :
    direntInum (mkDirent inum name) = inum := by
  show (UInt8.ofNat inum).toNat + 2 ^ 8 * (UInt8.ofNat (inum / 2 ^ 8)).toNat = inum
  rw [UInt8.toNat_ofNat', UInt8.toNat_ofNat']
  omega

theorem slice_flatten {L : List (List UInt8)} (uniform : ∀ l ∈ L, l.length = m) (k : Nat) :
    (L.flatten.drop (m * k)).take m = L[k]?.getD [] := by
  induction L generalizing k with
  | nil => simp
  | cons l L ih =>
    have here := uniform l (List.mem_cons_self ..)
    cases k with
    | zero =>
      subst here
      simp
    | succ k =>
      have rest := ih (fun l mem => uniform l (List.mem_cons_of_mem _ mem)) k
      rw [List.flatten_cons, List.getElem?_cons_succ, ← rest, Nat.mul_succ, Nat.add_comm,
        ← List.drop_drop, List.drop_append_of_le_length here.ge]
      subst here
      simp

theorem length_flatten_uniform {L : List (List UInt8)} (uniform : ∀ l ∈ L, l.length = m) :
    L.flatten.length = m * L.length := by
  induction L with
  | nil => rfl
  | cons l L ih =>
    rw [List.flatten_cons, List.length_append, uniform l (List.mem_cons_self ..),
      ih fun l mem => uniform l (List.mem_cons_of_mem _ mem), List.length_cons, Nat.mul_succ]
    omega

variable {files : List Input} {s : State} {nodes : Nat → Dinode}

theorem dirents_uniform (files : List Input) : ∀ l ∈ dirents files, l.length = sizeofDirent := by
  intro l mem
  simp only [dirents, List.mem_cons, List.mem_mapIdx] at mem
  rcases mem with rfl | rfl | ⟨k, _, rfl⟩
  · exact mkDirent_length _ _
  · exact mkDirent_length _ _
  · exact mkDirent_length _ _

theorem dirents_length (files : List Input) : (dirents files).length = files.length + 2 := by
  simp [dirents]

theorem root_length (files : List Input) :
    (contents files ROOTINO).length = sizeofDirent * (files.length + 2) := by
  rw [← dirents_length]
  exact length_flatten_uniform (dirents_uniform files)

theorem Built.rootEntry (built : Built files s nodes) {k : Nat}
    (inside : sizeofDirent * k + sizeofDirent ≤ (nodes ROOTINO).size.toNat) :
    Mkfs.rootEntry s.disk k = (dirents files)[k]?.getD (List.replicate sizeofDirent 0) := by
  have slice := slice_flatten (dirents_uniform files) k
  have bytes : Mkfs.rootEntry s.disk k = (List.range sizeofDirent).map fun j =>
      (contents files ROOTINO).getD (sizeofDirent * k + j) 0 := by
    unfold Mkfs.rootEntry Dinode.content
    rw [built.stored ROOTINO (by decide), Fs.slice_range, Nat.min_eq_left (by omega)]
    refine List.map_congr_left fun j _ => ?_
    exact (built.holds ROOTINO).byte _
  rw [bytes]
  by_cases there : k < (dirents files).length
  · have entry : (dirents files)[k]? = some (dirents files)[k] := List.getElem?_eq_getElem there
    have length : ((dirents files)[k]).length = sizeofDirent :=
      dirents_uniform files _ (List.getElem_mem there)
    rw [entry, Option.getD_some] at slice ⊢
    refine List.ext_getElem (by rw [List.length_map, List.length_range, length]) fun j h _ => ?_
    have small : j < sizeofDirent := by simpa using h
    have byte : (dirents files)[k][j]? = (contents files ROOTINO)[sizeofDirent * k + j]? := by
      rw [← slice, List.getElem?_take_of_lt small, List.getElem?_drop]
      rfl
    rw [List.getElem_map, List.getElem_range, List.getD_eq_getElem?_getD, ← byte,
      List.getElem?_eq_getElem (by omega), Option.getD_some]
  · have past : (contents files ROOTINO).length ≤ sizeofDirent * k := by
      rw [root_length, ← dirents_length]
      exact Nat.mul_le_mul_left _ (Nat.le_of_not_lt there)
    rw [List.getElem?_eq_none (Nat.le_of_not_lt there), Option.getD_none]
    refine List.ext_getElem (by simp) fun j _ _ => ?_
    rw [List.getElem_map, List.getElem_range, List.getElem_replicate]
    exact List.getD_eq_default _ _ (by omega)

end Root

/-! ## When the image is well formed -/

section Verdict

variable {files : List Input} {s : State} {nodes : Nat → Dinode} {i : Nat}

section

variable (built : Built files s nodes)

include built

theorem Built.block
    (needed : bn * BSIZE < (contents files i).length) :
    ∃ x, blockSlot bn = some x ∧ (nodes i).number s.disk x ≠ 0 := by
  have small : bn < MAXFILE :=
    Nat.lt_of_mul_lt_mul_right (Nat.lt_of_lt_of_le needed (built.short i))
  obtain ⟨x, slot⟩ := blockSlot_of_lt small
  refine ⟨x, slot, ((built.holds i).slots x).mpr ?_⟩
  rwa [start_of_blockSlot slot]

theorem Built.full (inside : i < places) (other : i ≠ ROOTINO) :
    (s.disk.dinode sb i).Full s.disk := by
  rw [built.stored i inside]
  intro bn needed
  rw [built.size i other] at needed
  exact built.block needed

/-- The root directory has a block for each place if its entries end inside a block. -/
theorem Built.root_full_iff :
    (s.disk.dinode sb ROOTINO).Full s.disk ↔ (files.length + 2) % 64 ≠ 0 := by
  have length : (contents files ROOTINO).length = 16 * (files.length + 2) := root_length files
  rw [built.stored ROOTINO (by decide)]
  constructor
  · intro full aligned
    obtain ⟨x, slot, there⟩ := full ((contents files ROOTINO).length / BSIZE) (by
      rw [built.rootSize]
      exact Nat.mul_lt_mul_of_pos_right (Nat.lt_succ_self _) (by decide))
    have needed := ((built.holds ROOTINO).slots x).mp there
    rw [start_of_blockSlot slot] at needed
    unfold BSIZE at needed
    omega
  · intro inside bn needed
    rw [built.rootSize] at needed
    refine built.block ?_
    unfold BSIZE at *
    omega

theorem Built.owns (inside : i < places)
    (owns : (s.disk.dinode sb i).owns s.disk x = some b) :
    (nodes i).number s.disk x ≠ 0 ∧ (nodes i).number s.disk x = b := by
  rw [built.stored i inside, Dinode.owns_eq_some] at owns
  obtain ⟨-, nonzero, is⟩ := owns
  exact ⟨is ▸ nonzero, is⟩

theorem Built.entry_inum (inodes : files.length + 2 ≤ places)
    (inside : sizeofDirent * k + sizeofDirent ≤ (nodes ROOTINO).size.toNat) :
    direntInum (Mkfs.rootEntry s.disk k) =
      if k < 2 then ROOTINO else if k < files.length + 2 then k else 0 := by
  have bound : places = 208 := rfl
  rw [built.rootEntry inside]
  match k with
  | 0 => exact direntInum_mkDirent (by decide) _
  | 1 => exact direntInum_mkDirent (by decide) _
  | k + 2 =>
    rw [if_neg (by omega)]
    show direntInum ((files.mapIdx fun k f => mkDirent (k + 2) f.name)[k]?.getD _) = _
    rw [List.getElem?_mapIdx]
    by_cases there : k < files.length
    · rw [List.getElem?_eq_getElem there, if_pos (by omega)]
      exact direntInum_mkDirent (by omega) _
    · rw [List.getElem?_eq_none (Nat.le_of_not_lt there), if_neg (by omega)]
      rfl

theorem Built.place_of_lt
    (inside : k < direntCount (nodes ROOTINO).size.toNat) :
    sizeofDirent * k + sizeofDirent ≤ (nodes ROOTINO).size.toNat := by
  have size := built.rootSize
  unfold direntCount sizeofDirent at *
  unfold BSIZE at *
  omega

/-- The root directory names inodes of the file system if there are few enough. -/
theorem Built.entries_iff (inodes : files.length + 2 ≤ places) :
    (∀ k, k < direntCount (s.disk.dinode sb ROOTINO).size.toNat →
      direntInum (Mkfs.rootEntry s.disk k) ≠ 0 → direntInum (Mkfs.rootEntry s.disk k) < NINODES ∧
        (s.disk.dinode sb (direntInum (Mkfs.rootEntry s.disk k))).type ≠ 0) ↔
      files.length + 2 ≤ NINODES := by
  have size := built.rootSize
  have length := root_length files
  rw [built.stored ROOTINO (by decide)]
  constructor
  · intro names
    by_contra many
    have last : files.length + 1 < direntCount (nodes ROOTINO).size.toNat := by
      unfold direntCount sizeofDirent at *
      unfold BSIZE at *
      omega
    have inum := built.entry_inum inodes (built.place_of_lt last)
    have : NINODES = 200 := rfl
    rw [if_neg (by omega), if_pos (by omega)] at inum
    have small := (names _ last (by omega)).1
    omega
  · intro few k inside nonzero
    have inum := built.entry_inum inodes (built.place_of_lt inside)
    have allocated {i : Nat} (positive : 0 < i) (below : i < files.length + 2) :
        i < NINODES ∧ (s.disk.dinode sb i).type ≠ 0 := by
      rw [built.stored i (by omega), built.kind i positive below]
      refine ⟨by omega, ?_⟩
      split <;> decide
    rw [inum] at nonzero ⊢
    split
    · exact allocated (by decide) (by unfold ROOTINO; omega)
    rename_i later
    split
    · next below => exact allocated (by omega) below
    · next above =>
      rw [if_neg later, if_neg above] at nonzero
      exact absurd rfl nonzero

end

/-- The image is well formed if and only if the inodes suffice and the entries of the root
directory do not fill its last block. -/
theorem image_well_formed_iff (accepted : main files = .ok s) :
    WellFormed s ↔ files.length + 2 ≤ NINODES ∧ (files.length + 2) % 64 ≠ 0 := by
  have inodes := main_inodes accepted
  have bounds : NINODES ≤ places := by decide
  constructor
  · intro well
    have inside : files.length + 2 ≤ places := by
      by_contra many
      have overlap := well.apart places (by omega)
      exact absurd overlap (by decide)
    obtain ⟨nodes, built⟩ := main_built accepted inside
    exact ⟨(built.entries_iff inside).mp well.entries,
      built.root_full_iff.mp (well.full ROOTINO (by decide))⟩
  · rintro ⟨few, ragged⟩
    obtain ⟨nodes, built⟩ := main_built accepted (few.trans bounds)
    have full (i : Nat) (inside : i < NINODES) : (s.disk.dinode sb i).Full s.disk := by
      by_cases root : i = ROOTINO
      · subst root
        exact built.root_full_iff.mpr ragged
      · exact built.full (Nat.lt_of_lt_of_le inside bounds) root
    refine ⟨full, fun i x b inside owns => ?_, fun i x j y b insideI insideJ ownsI ownsJ => ?_,
      fun i below => ?_, (built.entries_iff (few.trans bounds)).mpr few,
      fun t ip dst off n i disk inside copy => ?_⟩
    · obtain ⟨there, rfl⟩ := built.owns (Nat.lt_of_lt_of_le inside bounds) owns
      have range := built.laid.range there
      have room := built.room
      refine ⟨range.1, by omega, ?_⟩
      rw [built.used _ (by omega)]
      exact decide_eq_true range.2
    · obtain ⟨thereI, rfl⟩ := built.owns (Nat.lt_of_lt_of_le insideI bounds) ownsI
      obtain ⟨-, same⟩ := built.owns (Nat.lt_of_lt_of_le insideJ bounds) ownsJ
      obtain ⟨rfl, rfl⟩ := built.laid.inj thereI same
      exact ⟨rfl, rfl⟩
    · exact iblock_lt (by omega)
    · refine Fs.readi_stays ?_ dst off n
      rw [copy, disk]
      exact full i inside

end Verdict

/-! ## Empty files -/

theorem ofNat_toNat (k : Nat) : (UInt8.ofNat (k % 100 + 100)).toNat = k % 100 + 100 := by
  rw [UInt8.toNat_ofNat']
  omega

def emptyFile (k : Nat) : Input where
  path := [UInt8.ofNat (k % 100 + 100)]
  isString := by
    rw [List.mem_singleton]
    intro zero
    have value := congrArg UInt8.toNat zero
    rw [ofNat_toNat, UInt8.toNat_zero] at value
    omega
  chunks := []
  fit := nofun

def emptyFiles (n : Nat) : List Input := (List.range n).map emptyFile

theorem emptyFiles_content (other : i ≠ 1) : contents (emptyFiles n) i = [] := by
  match i with
  | 0 => rfl
  | 1 => exact absurd rfl other
  | k + 2 =>
    show ((emptyFiles n)[k]?.map Input.content).getD [] = []
    unfold emptyFiles
    rw [List.getElem?_map]
    cases (List.range n)[k]? <;> rfl

theorem emptyFiles_fits (few : n + 2 ≤ NINODES) : Fits (emptyFiles n) := by
  have bound : NINODES = 200 := rfl
  have count : (emptyFiles n).length = n := by simp [emptyFiles]
  have root : (contents (emptyFiles n) 1).length = 16 * (n + 2) :=
    (root_length (emptyFiles n)).trans (by rw [count]; rfl)
  refine ⟨fun f mem => ?_, fun i => ?_, ?_⟩
  · obtain ⟨k, -, rfl⟩ := List.mem_map.mp mem
    have value := ofNat_toNat k
    have name : shortname (emptyFile k).path = [UInt8.ofNat (k % 100 + 100)] :=
      if_neg (by simp [emptyFile])
    unfold Input.name
    rw [name]
    refine ⟨fun isSlash => ?_, ?_⟩
    · rw [← List.mem_singleton.mp isSlash] at value
      have : Fs.slash.toNat = 47 := rfl
      omega
    · unfold skipUnderscore
      split
      · exact Nat.zero_le _
      · exact Nat.le_add_left 1 13
  · by_cases here : i = 1
    · subst here
      unfold MAXFILE Fs.NDIRECT Fs.NINDIRECT BSIZE
      omega
    · rw [emptyFiles_content here]
      exact Nat.zero_le _
  · have sum : blocks (contents (emptyFiles n)) ((emptyFiles n).length + 2) =
      need (16 * (n + 2)) := by
      unfold blocks
      rw [Finset.sum_eq_single 1, root]
      · intro i _ other
        rw [emptyFiles_content other]
        rfl
      · intro absent
        exact absurd (Finset.mem_range.mpr (by omega)) absent
    have small : need (16 * (n + 2)) ≤ need (16 * NINODES) := need_mono (by omega)
    have total : nmeta + need (16 * NINODES) ≤ FSSIZE := by decide
    omega

theorem image_well_formed_iff_one : ∃ s, main (emptyFiles 1) = .ok s ∧ WellFormed s := by
  obtain ⟨s, accepted⟩ := main_ok (emptyFiles_fits (n := 1) (by decide)) (by decide)
  exact ⟨s, accepted, (image_well_formed_iff accepted).mpr (by decide)⟩

/-- With 62 files the entries fill a block, and the root directory ends with a hole. -/
theorem full_block_leaves_hole :
    ∃ s, main (emptyFiles 62) = .ok s ∧ ¬ (s.disk.dinode sb ROOTINO).Full s.disk ∧
      ¬ WellFormed s := by
  obtain ⟨s, accepted⟩ := main_ok (emptyFiles_fits (n := 62) (by decide)) (by decide)
  obtain ⟨nodes, built⟩ := main_built accepted (by decide)
  have hole : ¬ (s.disk.dinode sb ROOTINO).Full s.disk := by
    rw [built.root_full_iff]
    decide
  exact ⟨s, accepted, hole, fun well => hole (well.full ROOTINO (by decide))⟩

end Xv6.Mkfs
