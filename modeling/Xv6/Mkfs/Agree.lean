import Xv6.Mkfs.WellFormed

/-!
# The kernel reads what `mkfs` wrote

`dirlookup` in the root directory of an image finds the name of every file, and `readi` of the
inode that it finds returns the bytes of the file.

The end of the root directory may be a hole, see `WellFormed`. The entries of the files all come
before it, and so `dirlookup` does not get there.
-/

namespace Xv6.Mkfs

open Log (BSIZE Block)
open Fs (Disk Dinode Superblock ROOTINO DIRSIZ T_DIR mkDirent dot dotdot cname sameName direntCount
  direntInum direntName sizeofDirent Ip FsM dirlookup scanName readDirent readi ilock iget)
open List (getElem?_eq_getElem getElem_mem)

/-- The kernel's `readsb`. -/
def readsb (disk : Disk) : Superblock where
  size := (disk 1).word 1
  ninodes := (disk 1).word 3
  inodestart := (disk 1).word 6
  bmapstart := (disk 1).word 7

/-- The kernel has the root directory of the disk in its inode table, at `dp`, and nothing else. -/
structure Mounted (t : Fs.State) (disk : Disk) (dp : Ip) : Prop where
  image : t.disk = disk
  sb : t.sb = readsb disk
  inum : (t.itable dp).inum = ROOTINO
  used : 0 < (t.itable dp).ref
  copy : (t.itable dp).toDinode = disk.dinode (readsb disk) ROOTINO
  others : ∀ e, e ≠ dp → (t.itable e).ref = 0 ∧ (t.itable e).locked = false

/-- Lock an inode and read it. -/
def readAll (ip : Ip) (n : Nat) : FsM (Option (List UInt8)) := do
  ilock ip
  readi ip (fun _ => true) 0 n

/-! ## Names -/

section Names

variable {f : Input} {name : List UInt8}

theorem cname_of_short (short : name.length ≤ DIRSIZ) (isString : 0 ∉ name) :
    cname name = name := by
  unfold cname
  rw [List.take_of_length_le short, List.takeWhile_eq_self_iff]
  intro b mem
  refine decide_eq_true ?_
  rintro rfl
  exact isString mem

theorem Input.name_isString (f : Input) : 0 ∉ f.name := by
  have short : 0 ∉ shortname f.path := by
    unfold shortname
    split
    · exact fun mem => f.isString (List.mem_of_mem_drop mem)
    · exact f.isString
  unfold Input.name skipUnderscore
  split
  · exact fun mem => short (List.mem_of_mem_drop mem)
  · exact short

theorem direntName_mkDirent (inum : Nat) (name : List UInt8) :
    cname (direntName (mkDirent inum name)) = cname name := by
  have short : (cname name).length ≤ DIRSIZ :=
    (List.takeWhile_prefix _).length_le.trans (List.length_take_le _ _)
  have proper : ∀ b ∈ cname name, decide (b ≠ 0) = true := fun b mem =>
    List.mem_takeWhile_imp (p := fun b => decide (b ≠ 0)) mem
  show ((cname name ++ List.replicate (DIRSIZ - (cname name).length) 0).take DIRSIZ).takeWhile _ = _
  rw [List.take_of_length_le (by rw [List.length_append, List.length_replicate]; omega),
    List.takeWhile_append_of_pos proper]
  cases DIRSIZ - (cname name).length <;> simp [List.replicate_succ]

theorem sameName_mkDirent :
    sameName name (direntName (mkDirent inum name')) = true ↔ cname name = cname name' := by
  unfold sameName
  rw [direntName_mkDirent, beq_iff_eq]

end Names

/-! ## Looking up a name -/

section Lookup

variable {t : Fs.State} {dp : Ip} {name : List UInt8} {E : Option Fs.Panic → Prop}

theorem scanName_ends {entry : Nat → List UInt8}
    (reads : ∀ k, k ≤ target → (readDirent .dirlookupRead dp (sizeofDirent * k)).Ends E
      (fun de t' => t' = t ∧ de = entry k) t)
    (miss : ∀ k, k < target → ¬ (direntInum (entry k) ≠ 0 ∧ sameName name (direntName (entry k))))
    (hit : direntInum (entry target) ≠ 0 ∧ sameName name (direntName (entry target)))
    (count k : Nat) (before : k ≤ target) (enough : target < k + count) :
    (scanName dp name count (sizeofDirent * k)).Ends E
      (fun found t' => t' = t ∧
        found = some (direntInum (entry target), sizeofDirent * target)) t := by
  induction count generalizing k with
  | zero => omega
  | succ count ih =>
    refine (reads k before).bind ?_
    rintro de t' ⟨rfl, rfl⟩
    by_cases here : k = target
    · subst here
      rw [if_pos hit]
      exact ⟨rfl, rfl⟩
    · rw [if_neg (miss k (by omega)), ← Nat.mul_succ]
      exact ih (k + 1) (by omega) (by omega)

end Lookup

/-! ## The mounted image -/

section Mounted

variable {files : List Input} {s : State} {nodes : Nat → Dinode} {t : Fs.State} {dp : Ip}
  {E : Option Fs.Panic → Prop}

theorem readsb_superblock (super : disk 1 = superblock) : readsb disk = sb := by
  have word (j : Nat) (inside : j < 8) : superblock.word j =
      [FSMAGIC, FSSIZE, FSSIZE - nmeta, NINODES, nlog, 2, sb.inodestart, sb.bmapstart][j] := by
    have stored := Bytes.word_setWords (n := BSIZE) (fun _ => 0) (i := 0) (j := j)
      [FSMAGIC, FSSIZE, FSSIZE - nmeta, NINODES, nlog, 2, sb.inodestart, sb.bmapstart] (by decide)
      (by decide) inside
    rwa [Nat.zero_add] at stored
  unfold readsb
  rw [super, word 1 (by decide), word 3 (by decide), word 6 (by decide), word 7 (by decide)]
  rfl

theorem Built.mounted_copy (built : Built files s nodes) (mounted : Mounted t s.disk dp) :
    t.sb = sb ∧ (t.itable dp).toDinode = nodes ROOTINO := by
  have readsb := readsb_superblock built.super
  refine ⟨mounted.sb.trans readsb, ?_⟩
  rw [mounted.copy, readsb, built.stored ROOTINO (by decide)]

theorem Built.readDirent_ends (built : Built files s nodes) (mounted : Mounted t s.disk dp)
    (e : Fs.Panic) (there : k < files.length + 2) :
    (readDirent e dp (sizeofDirent * k)).Ends E
      (fun de t' => t' = t ∧ de = (dirents files)[k]?.getD []) t := by
  obtain ⟨-, copy⟩ := built.mounted_copy mounted
  have length : (contents files ROOTINO).length = 16 * (files.length + 2) := root_length files
  have short := built.short ROOTINO
  have size : 16 * k + 16 ≤ (t.itable dp).size.toNat := by
    rw [copy, built.rootSize]
    unfold BSIZE
    omega
  have max : Fs.MAXFILE * BSIZE < 2 ^ 31 := by decide
  have entry : (((t.itable dp).toDinode.content t.disk).drop (16 * k)).take 16 =
      (dirents files)[k]?.getD [] := by
    have slice := built.rootEntry (k := k) (copy ▸ size)
    rw [← dirents_length] at there
    rw [getElem?_eq_getElem there] at slice ⊢
    unfold Mkfs.rootEntry at slice
    rw [built.stored ROOTINO (by decide)] at slice
    rw [copy, mounted.image]
    exact slice
  have inEntries : (dirents files)[k]?.getD [] ∈ dirents files := by
    rw [← dirents_length] at there
    rw [getElem?_eq_getElem there]
    exact getElem_mem there
  have read : (readi dp (fun _ => true) (16 * k) 16).Ends E
      (fun r t' => t' = t ∧ r = some ((dirents files)[k]?.getD [])) t := by
    rw [← entry]
    refine (Fs.readi_blocks (fun bn below _ => ?_) (by omega) (by omega)).imp
      fun _ _ ⟨same, read⟩ =>
      ⟨same, read fun _ _ => rfl⟩
    unfold Fs.State.number
    rw [copy, mounted.image]
    exact built.block (by omega)
  refine read.bind ?_
  rintro r t' ⟨rfl, rfl⟩
  rw [Option.getD_some, if_pos (dirents_uniform files _ inEntries)]
  exact ⟨rfl, rfl⟩

theorem Mounted.iget_ends (mounted : Mounted t disk dp) (other : i ≠ ROOTINO) :
    (iget i).Ends E (fun ip t' => t'.disk = t.disk ∧ t'.sb = t.sb ∧ (t'.itable ip).inum = i ∧
      (t'.itable ip).ref = 1 ∧ (t'.itable ip).valid = false ∧ (t'.itable ip).locked = false) t := by
  refine .atomic ?_
  have absent : t.findInode i = none := by
    cases found : t.findInode i with
    | none => rfl
    | some e =>
      obtain ⟨used, is⟩ := Fs.findInode_some found
      by_cases here : e = dp
      · subst here
        exact absurd (is.symm.trans mounted.inum) other
      · have := (mounted.others e here).1
        omega
  have room : ∃ ip, t.emptyInode = some ip := by
    have place : ∃ e : Ip, e ≠ dp := by
      by_cases first : dp.val = 0
      · exact ⟨⟨1, by decide⟩, fun same => by rw [← same] at first; exact absurd first (by decide)⟩
      · exact ⟨⟨0, by decide⟩, fun same => first (by rw [← same])⟩
    obtain ⟨e, notRoot⟩ := place
    cases found : t.emptyInode with
    | some ip => exact ⟨ip, rfl⟩
    | none =>
      have inUse := List.find?_eq_none.mp found e (List.mem_finRange e)
      simp [(mounted.others e notRoot).1] at inUse
  obtain ⟨ip, empty⟩ := room
  have unused := Fs.emptyInode_some empty
  have notRoot : ip ≠ dp := by
    rintro rfl
    have := mounted.used
    omega
  rw [absent, empty]
  refine ⟨rfl, rfl, ?_⟩
  rw [Fs.State.modifyInode_self]
  exact ⟨rfl, rfl, rfl, (mounted.others ip notRoot).2⟩

theorem Built.readAll_ends (built : Built files s nodes) (disk : t.disk = s.disk) (sb : t.sb = sb)
    (inum : (t.itable ip).inum = i) (ref : (t.itable ip).ref = 1)
    (valid : (t.itable ip).valid = false) (locked : (t.itable ip).locked = false)
    (inside : i < places) (positive : 0 < i) (below : i < files.length + 2)
    (notRoot : i ≠ ROOTINO) (enough : (contents files i).length ≤ n) (small : n < 2 ^ 32) :
    (readAll ip n).Ends E (fun bytes _ => bytes = some (contents files i)) t := by
  have node : t.disk.dinode t.sb i = nodes i := by rw [disk, sb, built.stored i inside]
  have type : (nodes i).type ≠ 0 := by
    rw [built.kind i positive below, if_neg notRoot]
    decide
  have lock : (ilock ip).Ends E (fun _ t' => t'.disk = s.disk ∧
      (t'.itable ip).toDinode = nodes i) t := by
    refine Prog.Ends.bind (Q := fun _ t' => t' = t.modifyInode ip fun v =>
      { v with locked := true }) (.atomic ?_) ?_
    · rw [if_neg (by omega), locked]
      exact rfl
    rintro _ t' rfl
    refine .atomic ?_
    simp only [Fs.State.modifyInode_self]
    rw [valid, inum, if_neg Bool.false_ne_true, if_neg (node ▸ type)]
    refine ⟨disk, ?_⟩
    simp only [Fs.State.modifyInode_self]
    exact node
  refine lock.bind ?_
  rintro _ t' ⟨disk', copy⟩
  have size := built.size i notRoot
  have full : (t'.itable ip).toDinode.Full t'.disk := by
    rw [copy, disk', ← built.stored i inside]
    exact built.full inside notRoot
  refine (Fs.readi_ends full (fun _ _ => rfl) (Nat.zero_le _) (by omega)).imp ?_
  rintro bytes _ ⟨-, rfl⟩
  rw [copy, disk', List.drop_zero]
  congr 1
  have content : (nodes i).content s.disk = contents files i := by
    refine List.ext_getElem ?_ fun q h h' => ?_
    · simp [Dinode.content, size]
    · simp only [Dinode.content, List.getElem_map, List.getElem_range]
      rw [(built.holds i).byte q, List.getD_eq_getElem _ _ h']
  rw [content, List.take_of_length_le enough]

theorem dirents_file (there : k < files.length) :
    (dirents files)[k + 2]?.getD [] = mkDirent (k + 2) (files[k]).name := by
  show ((files.mapIdx fun k f => mkDirent (k + 2) f.name)[k]?).getD [] = _
  rw [List.getElem?_mapIdx, getElem?_eq_getElem there]
  rfl

theorem dirents_first (names : ∀ f ∈ files, f.name.length ≤ DIRSIZ)
    (distinct : (files.map Input.name).Nodup)
    (proper : ∀ f ∈ files, f.name ≠ dot ∧ f.name ≠ dotdot) (there : k < files.length)
    (before : j < k + 2) :
    ¬ sameName (files[k]).name (direntName ((dirents files)[j]?.getD [])) = true := by
  have plain {k : Nat} (there : k < files.length) : cname (files[k]).name = (files[k]).name :=
    cname_of_short (names _ (getElem_mem there)) (Input.name_isString _)
  obtain ⟨notDot, notDotdot⟩ := proper _ (getElem_mem there)
  match j with
  | 0 =>
    show ¬ sameName _ (direntName (mkDirent ROOTINO dot)) = true
    rw [sameName_mkDirent, plain there]
    exact notDot
  | 1 =>
    show ¬ sameName _ (direntName (mkDirent ROOTINO dotdot)) = true
    rw [sameName_mkDirent, plain there]
    exact notDotdot
  | j + 2 =>
    have inside : j < files.length := by omega
    rw [dirents_file inside, sameName_mkDirent, plain there, plain inside]
    intro same
    have names : (files.map Input.name)[k]? = (files.map Input.name)[j]? := by
      rw [List.getElem?_map, List.getElem?_map, getElem?_eq_getElem there,
        getElem?_eq_getElem inside, Option.map_some, Option.map_some, same]
    have equal := (List.getElem?_inj (by rwa [List.length_map]) distinct).mp names
    omega

/-- The kernel finds every file of an image by its name and reads its bytes. -/
theorem kernel_reads_image (fits : Fits files) (few : files.length + 2 ≤ NINODES)
    (distinct : (files.map Input.name).Nodup)
    (proper : ∀ f ∈ files, f.name ≠ dot ∧ f.name ≠ dotdot) :
    ∃ s, main files = .ok s ∧ ∀ f ∈ files, ∀ t dp, Mounted t s.disk dp →
      (dirlookup dp f.name).Ends (fun _ => False)
        (fun found t' => ∃ ip off, found = some (ip, off) ∧
        ∀ n, f.content.length ≤ n → n < 2 ^ 32 →
          (readAll ip n).Ends (fun _ => False) (fun bytes _ => bytes = some f.content) t') t := by
  have bounds : NINODES ≤ places := by decide
  have inodes : NINODES = 200 := rfl
  obtain ⟨s, accepted⟩ := main_ok fits (few.trans bounds)
  obtain ⟨nodes, built⟩ := main_built accepted (few.trans bounds)
  refine ⟨s, accepted, fun f mem t dp mounted => ?_⟩
  obtain ⟨k, there, rfl⟩ := List.getElem_of_mem mem
  obtain ⟨sb, copy⟩ := built.mounted_copy mounted
  have inum : direntInum ((dirents files)[k + 2]?.getD []) = k + 2 := by
    rw [dirents_file there]
    exact direntInum_mkDirent (by omega) _
  have content : contents files (k + 2) = (files[k]).content := by
    show (files[k]?.map Input.content).getD [] = _
    rw [getElem?_eq_getElem there]
    rfl
  have isDir : (t.itable dp).type = T_DIR := by
    rw [copy, built.kind ROOTINO (by decide) (by unfold ROOTINO; omega), if_pos rfl]
  have count : k + 2 < 0 + direntCount (t.itable dp).size.toNat := by
    have length : (contents files ROOTINO).length = 16 * (files.length + 2) := root_length files
    rw [copy, built.rootSize]
    unfold direntCount sizeofDirent
    unfold BSIZE
    omega
  refine .after_read ?_
  rw [if_neg fun other => other isDir]
  have scan : (scanName dp (files[k]).name (direntCount (t.itable dp).size.toNat)
      (sizeofDirent * 0)).Ends (fun _ => False) (fun found t' => t' = t ∧
        found = some (direntInum ((dirents files)[k + 2]?.getD []), sizeofDirent * (k + 2))) t := by
    refine scanName_ends (fun j before => built.readDirent_ends mounted _ (by omega))
      (fun j before h => ?_) ⟨?_, ?_⟩ _ 0 (Nat.zero_le _) count
    · exact dirents_first (fun f mem => (fits.names f mem).2) distinct proper there before h.2
    · omega
    · rw [dirents_file there, sameName_mkDirent]
  refine scan.bind ?_
  rintro found t' ⟨rfl, rfl⟩
  rw [inum]
  refine (mounted.iget_ends (by unfold ROOTINO; omega)).bind ?_
  rintro ip t1 ⟨disk1, sb1, inum1, ref1, valid1, locked1⟩
  refine ⟨ip, _, rfl, fun n enough small => ?_⟩
  rw [← content] at enough ⊢
  exact built.readAll_ends (disk1.trans mounted.image) (sb1.trans sb) inum1 ref1 valid1 locked1
    (by omega) (by omega) (by omega) (by unfold ROOTINO; omega) enough small

end Mounted

/-! ## A file of two chunks -/

def mount (disk : Disk) : Fs.State where
  sb := readsb disk
  disk := disk
  itable e := if e.val = 0 then
    { disk.dinode (readsb disk) ROOTINO with inum := ROOTINO, ref := 1, valid := true } else {}

theorem mount_mounted (disk : Disk) : Mounted (mount disk) disk ⟨0, by decide⟩ where
  image := rfl
  sb := rfl
  inum := rfl
  used := Nat.one_pos
  copy := rfl
  others e other := by
    have far : e.val ≠ 0 := fun zero => other (Fin.ext zero)
    have empty : (mount disk).itable e = {} := if_neg far
    rw [empty]
    exact ⟨rfl, rfl⟩

/-- `user/_cat`, read in two chunks. -/
def catFile : Input where
  path := [0x75, 0x73, 0x65, 0x72, 0x2F, 0x5F, 0x63, 0x61, 0x74]
  isString := by decide
  chunks := [[1, 2], [3]]
  fit := by decide

theorem catFile_fits : Fits [catFile] := by
  refine ⟨by decide, fun i => ?_, by decide⟩
  match i with
  | 0 => exact Nat.zero_le _
  | 1 => decide
  | 2 => decide
  | k + 3 => exact Nat.zero_le _

theorem kernel_reads_image_cat : ∃ s, main [catFile] = .ok s ∧
    (dirlookup ⟨0, by decide⟩ [0x63, 0x61, 0x74]).Ends (fun _ => False)
      (fun found t' => ∃ ip off, found = some (ip, off) ∧
        (readAll ip 3).Ends (fun _ => False) (fun bytes _ => bytes = some [1, 2, 3]) t')
      (mount s.disk) := by
  obtain ⟨s, accepted, reads⟩ :=
    kernel_reads_image catFile_fits (by decide) (by decide) (by decide)
  refine ⟨s, accepted, (reads catFile (List.mem_singleton_self _) _ _ (mount_mounted _)).imp ?_⟩
  rintro found t' ⟨ip, off, is, read⟩
  exact ⟨ip, off, is, read 3 (by decide) (by decide)⟩

end Xv6.Mkfs
