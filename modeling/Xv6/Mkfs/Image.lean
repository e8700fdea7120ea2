import Mathlib.Algebra.Order.BigOperators.Group.Finset
import Xv6.Mkfs.Append

/-!
# The files of an image

`Image s nodes c` says that the image under construction has the inodes `nodes`, and the inode
`i` the content `c i`. Every function of `mkfs` takes an image to an image, unless the contents
do not fit.
-/

namespace Xv6.Mkfs

open Function (update update_self update_of_ne update_eq_self update_idem)
open Log (BSIZE Block)
open Fs (Disk Dinode Superblock AddrSlot indirectSlot ROOTINO NDIRECT NINDIRECT MAXFILE DIRSIZ IPB
  BPB T_DIR T_FILE mkDirent slash dot dotdot BlockSlot blockSlot indirectBlock)
open Outcome (Ends)
open List (append_assoc append_nil length_append singleton_append)

/-- The number of inodes that the inode blocks have place for. -/
def places : Nat := ninodeblocks * IPB

/-- The blocks that the first `n` inodes need. -/
def blocks (c : Nat → List UInt8) (n : Nat) : Nat := ∑ i ∈ Finset.range n, need (c i).length

/-- The contents fit the image. -/
structure Fit (c : Nat → List UInt8) (n : Nat) : Prop where
  size : ∀ i, (c i).length ≤ MAXFILE * BSIZE
  room : nmeta + blocks c n ≤ FSSIZE

structure Image (s : State) (nodes : Nat → Dinode) (c : Nat → List UInt8) : Prop where
  laid : Laid nodes s.disk s.freeblock
  room : s.freeblock ≤ FSSIZE
  count : s.freeblock = nmeta + blocks c s.freeinode
  super : s.disk 1 = superblock
  stored : ∀ i, i < places → s.disk.dinode sb i = nodes i
  holds : ∀ i, Holds (nodes i) s.disk (c i)
  size : ∀ i, (nodes i).size.toNat = (c i).length
  short : ∀ i, (c i).length ≤ MAXFILE * BSIZE
  kind : ∀ i, 0 < i → i < s.freeinode → (nodes i).type = if i = ROOTINO then T_DIR else T_FILE
  unused : ∀ i, i = 0 ∨ s.freeinode ≤ i → nodes i = {}

/-! ## Counting blocks -/

section Blocks

variable {c c' : Nat → List UInt8} {i n n' : Nat}

theorem blocks_mono (le : ∀ i, (c i).length ≤ (c' i).length) (fewer : n ≤ n') :
    blocks c n ≤ blocks c' n' :=
  (Finset.sum_le_sum fun i _ => need_mono (le i)).trans
    (Finset.sum_le_sum_of_subset (Finset.range_mono fewer))

theorem Fit.mono (fit : Fit c' n') (le : ∀ i, (c i).length ≤ (c' i).length) (fewer : n ≤ n') :
    Fit c n :=
  ⟨fun i => (le i).trans (fit.size i), (Nat.add_le_add_left (blocks_mono le fewer) _).trans
    fit.room⟩

theorem blocks_update (inside : i < n) (bytes : List UInt8) :
    blocks (update c i bytes) n + need (c i).length = blocks c n + need bytes.length := by
  have mem : i ∈ Finset.range n := Finset.mem_range.mpr inside
  have others : ∑ j ∈ (Finset.range n).erase i, need (update c i bytes j).length =
      ∑ j ∈ (Finset.range n).erase i, need (c j).length := by
    refine Finset.sum_congr rfl fun j away => ?_
    rw [update_of_ne (Finset.ne_of_mem_erase away)]
  unfold blocks
  rw [← Finset.add_sum_erase _ _ mem, ← Finset.add_sum_erase _
    (fun j => need (c j).length) mem, others, update_self]
  omega

theorem need_le_blocks (inside : i < n) : need (c i).length ≤ blocks c n :=
  Finset.single_le_sum (f := fun i => need (c i).length) (fun _ _ => Nat.zero_le _)
    (Finset.mem_range.mpr inside)

theorem length_le_need (len : Nat) : len ≤ need len * BSIZE := by
  unfold need BSIZE
  split_ifs <;> omega

end Blocks

/-! ## Where the inodes are -/

section Inodes

variable {i : Nat}

theorem iblock_lt (inside : i < places) : sb.iblock i < sb.bmapstart := by
  have place : i < 208 := inside
  show i / 16 + 33 < 46
  omega

theorem one_lt_iblock (i : Nat) : 1 < sb.iblock i :=
  Nat.lt_of_lt_of_le (by decide) (Nat.le_add_left _ _)

theorem bmapstart_lt : sb.bmapstart < nmeta := by decide

theorem rsect_inode (inside : i < places) (s : State) :
    rsect (sb.iblock i) s = .ok (s.disk (sb.iblock i)) := by
  have := iblock_lt inside
  have : sb.bmapstart < FSSIZE := by decide
  exact if_pos (by omega)

end Inodes

/-! ## Writing inodes -/

section Image

variable {s : State} {nodes : Nat → Dinode} {c : Nat → List UInt8} {i : Nat} {p : List UInt8}

section

variable (image : Image s nodes c)

include image

theorem Image.store (s1 : State) (v' : Dinode) (inside : i < places)
    (laid : Laid (update nodes i v) s1.disk s1.freeblock)
    (others : ∀ j, j ≠ i → Holds (nodes j) s1.disk (c j)) (holds : Holds v s1.disk bytes)
    (low : ∀ b, b < nmeta → s1.disk b = s.disk b) (room : s1.freeblock ≤ FSSIZE)
    (count : s1.freeblock = nmeta + blocks (update c i bytes) s1.freeinode) (positive : 0 < i)
    (below : i < s1.freeinode) (more : s.freeinode ≤ s1.freeinode)
    (new : ∀ j, j < s1.freeinode → j ≠ i → j < s.freeinode) (addrs : v'.addrs = v.addrs)
    (size : v'.size.toNat = bytes.length) (short : bytes.length ≤ MAXFILE * BSIZE)
    (kind : v'.type = if i = ROOTINO then T_DIR else T_FILE) :
    Image { s1 with disk := s1.disk.setDinode sb i v' } (update nodes i v')
      (update c i bytes) := by
  have area := iblock_lt inside
  have bitmap := bmapstart_lt
  have high (b : Nat) (above : nmeta ≤ b) : s1.disk.setDinode sb i v' b = s1.disk b :=
    Disk.set_other _ _ (by omega)
  obtain ⟨laid', keeps⟩ := (laid.addrs addrs).frame high
  refine ⟨laid', room, count, ?_, fun j inside => ?_, fun j => ?_, fun j => ?_, fun j => ?_,
    fun j pos lt => ?_, fun j away => ?_⟩
  · have := one_lt_iblock i
    have apart : 1 ≠ sb.iblock i := by omega
    have same : s1.disk.setDinode sb i v' 1 = s1.disk 1 := Disk.set_other _ _ apart
    exact same.trans ((low 1 (by decide)).trans image.super)
  · by_cases here : j = i
    · subst here
      rw [update_self, Disk.dinode_setDinode_self]
    · have before := iblock_lt inside
      rw [update_of_ne here, Disk.dinode_setDinode_other _ here, ← image.stored j inside]
      refine Disk.dinode_congr fun w _ => ?_
      rw [low _ (by omega)]
  · refine keeps j _ ?_
    by_cases here : j = i
    · subst here
      rw [update_self, update_self]
      exact holds.addrs addrs
    · rw [update_of_ne here, update_of_ne here]
      exact others j here
  · by_cases here : j = i
    · subst here
      rw [update_self, update_self, size]
    · rw [update_of_ne here, update_of_ne here]
      exact image.size j
  · by_cases here : j = i
    · subst here
      rwa [update_self]
    · rw [update_of_ne here]
      exact image.short j
  · by_cases here : j = i
    · subst here
      rw [update_self]
      exact kind
    · rw [update_of_ne here]
      exact image.kind j pos (new j lt here)
  · have here : j ≠ i := by
      dsimp only at away
      omega
    rw [update_of_ne here]
    refine image.unused j (away.imp_right fun above => more.trans above)

theorem Image.empty (unused : s.freeinode ≤ i) : c i = [] := by
  have size := image.size i
  rw [image.unused i (.inr unused)] at size
  exact List.eq_nil_of_length_eq_zero size.symm

theorem Image.ialloc (inside : s.freeinode < places)
    (positive : 0 < s.freeinode) (kind : type = if s.freeinode = ROOTINO then T_DIR else T_FILE) :
    Ends (fun _ => False) (fun next => next.1 = s.freeinode ∧
        next.2.freeinode = s.freeinode + 1 ∧ ∃ nodes', Image next.2 nodes' c)
      (Mkfs.ialloc type s) := by
  have blank := image.unused s.freeinode (.inr le_rfl)
  have none := image.empty le_rfl
  have same : update nodes s.freeinode (nodes s.freeinode) = nodes :=
    update_eq_self ..
  have content : update c s.freeinode [] = c := by
    rw [← none]
    exact update_eq_self ..
  have count : s.freeblock = nmeta + blocks c (s.freeinode + 1) := by
    unfold blocks
    rw [Finset.sum_range_succ, none]
    exact image.count
  unfold Mkfs.ialloc Mkfs.winode
  dsimp only
  rw [rsect_inode inside]
  have laid : Laid (update nodes s.freeinode (nodes s.freeinode)) s.disk s.freeblock := by
    rw [same]
    exact image.laid
  have holds : Holds (nodes s.freeinode) s.disk [] := none ▸ image.holds s.freeinode
  have written : Image { s with
        freeinode := s.freeinode + 1
        disk := s.disk.setDinode sb s.freeinode { type := type, nlink := 1 } }
      (update nodes s.freeinode { type := type, nlink := 1 })
      (update c s.freeinode []) := by
    refine image.store { s with freeinode := s.freeinode + 1 }
      { type := type, nlink := 1 } inside laid
      (fun j _ => image.holds j) holds (fun _ _ => rfl) image.room ?_
      positive (Nat.lt_succ_self _) (Nat.le_succ _) (fun j lt other => ?_) ?_ rfl
      (Nat.zero_le _) ?_
    · rw [content]
      exact count
    · exact Nat.lt_of_le_of_ne (Nat.le_of_lt_succ lt) other
    · rw [blank]
    · exact kind
  rw [content] at written
  exact .ok ⟨rfl, rfl, _, written⟩

theorem Image.iappend (positive : 0 < i) (below : i < s.freeinode)
    (inside : i < places) (p : List UInt8) :
    Ends (fun _ => ¬ Fit (update c i (c i ++ p)) s.freeinode)
      (fun next => next.freeinode = s.freeinode ∧
        ∃ nodes', Image next nodes' (update c i (c i ++ p)))
      (Mkfs.iappend i p s) := by
  have same : update nodes i (nodes i) = nodes := update_eq_self ..
  have sum := blocks_update (c := c) below (c i ++ p)
  have count := image.count
  have begins : Grown i nodes c s (nodes i) (c i).length s (nodes i) (c i) := by
    refine ⟨⟨?_, fun j _ => image.holds j, (image.holds i).byte, fun _ _ => rfl, rfl, rfl⟩,
      (image.holds i).slots, rfl, image.room, image.short i⟩
    rw [same]
    exact image.laid
  unfold Mkfs.iappend Mkfs.rinode
  rw [rsect_inode inside]
  show Ends _ _ (Mkfs.appendLoop p.length p (s.disk.dinode sb i).size.toNat _ s >>= _)
  rw [image.stored i inside, image.size i]
  refine ((begins.appendLoop p.length le_rfl).errors ?_).bind ?_
  · rintro _ (long | full) fit
    · have size := fit.size i
      rw [update_self, length_append] at size
      omega
    · have room := fit.room
      rw [length_append] at sum
      omega
  · rintro ⟨v, off, s1⟩ ⟨rfl, grown⟩
    have count1 := grown.count
    have room1 := grown.room
    have inodes := grown.ready.inodes
    have least : need (c i).length ≤ blocks c s.freeinode := need_le_blocks below
    dsimp only at count1 room1 inodes ⊢
    have bound : (c i ++ p).length ≤ FSSIZE * BSIZE :=
      (length_le_need _).trans (Nat.mul_le_mul_right BSIZE (by omega))
    unfold Mkfs.winode
    rw [rsect_inode inside]
    refine .ok ⟨inodes, ?_⟩
    refine ⟨_, image.store s1 _ inside grown.ready.laid grown.ready.others
      ⟨grown.slots, grown.ready.byte⟩ grown.ready.low room1 (by rw [inodes]; omega) positive
      (by rw [inodes]; exact below) inodes.ge (fun j lt _ => inodes ▸ lt) rfl ?_ grown.short ?_⟩
    · refine UInt32.toNat_ofNat_of_lt' (Nat.lt_of_le_of_lt bound ?_)
      decide
    · have fields : v = { nodes i with addrs := v.addrs } := grown.ready.fields
      have type : v.type = (nodes i).type := by rw [fields]
      exact type.trans (image.kind i positive below)

theorem Image.appendChunks (positive : 0 < i) (below : i < s.freeinode)
    (inside : i < places) (chunks : List (List UInt8)) :
    Ends (fun _ => ¬ Fit (update c i (c i ++ chunks.flatten)) s.freeinode)
      (fun next => next.freeinode = s.freeinode ∧
        ∃ nodes', Image next nodes' (update c i (c i ++ chunks.flatten)))
      (Mkfs.appendChunks i chunks s) := by
  induction chunks generalizing s nodes c with
  | nil =>
    rw [List.flatten_nil, append_nil, update_eq_self]
    exact .ok ⟨rfl, nodes, image⟩
  | cons chunk chunks ih =>
    have total : update (update c i (c i ++ chunk)) i
        (update c i (c i ++ chunk) i ++ chunks.flatten) =
          update c i (c i ++ (chunk :: chunks).flatten) := by
      rw [update_idem, update_self, List.flatten_cons, append_assoc]
    refine ((image.iappend positive below inside chunk).errors fun _ large fit => large ?_).bind ?_
    · refine fit.mono (fun j => ?_) le_rfl
      by_cases here : j = i
      · subst here
        simp only [update_self, List.flatten_cons, length_append]
        omega
      · rw [update_of_ne here, update_of_ne here]
    · rintro s1 ⟨inodes, nodes1, image1⟩
      have rest := ih image1 (inodes ▸ below)
      rw [total, inodes] at rest
      exact rest

end

end Image

/-! ## The files -/

/-- The name of a file in the image. -/
def Input.name (f : Input) : List UInt8 := skipUnderscore (shortname f.path)

def dirents (files : List Input) : List (List UInt8) :=
  mkDirent ROOTINO dot :: mkDirent ROOTINO dotdot :: files.mapIdx fun k f => mkDirent (k + 2) f.name

def contents (files : List Input) : Nat → List UInt8
  | 0 => []
  | 1 => (dirents files).flatten
  | k + 2 => (files[k]?.map Input.content).getD []

/-- What `mkfs` can make an image of. -/
structure Fits (files : List Input) : Prop where
  names : ∀ f ∈ files, slash ∉ shortname f.path ∧ f.name.length ≤ DIRSIZ
  fit : Fit (contents files) (files.length + 2)

section Files

variable {s : State} {nodes : Nat → Dinode} {files done : List Input} {f : Input}

theorem contents_concat : contents (done ++ [f]) =
    update (update (contents done) 1
      (contents done 1 ++ mkDirent (done.length + 2) f.name)) (done.length + 2) f.content := by
  funext i
  match i with
  | 0 => rfl
  | 1 =>
    show (dirents (done ++ [f])).flatten = (dirents done).flatten ++ _
    unfold dirents
    simp
  | k + 2 =>
    show ((done ++ [f])[k]?.map Input.content).getD [] = _
    by_cases here : k = done.length
    · subst here
      rw [update_self, List.getElem?_concat_length]
      rfl
    rw [update_of_ne (by omega), update_of_ne (by omega)]
    show _ = (done[k]?.map Input.content).getD []
    by_cases before : k < done.length
    · rw [List.getElem?_append_left before]
    · rw [List.getElem?_eq_none (by rw [length_append, List.length_singleton]; omega),
        List.getElem?_eq_none (by omega)]

theorem contents_le (done rest : List Input) (i : Nat) :
    (contents done i).length ≤ (contents (done ++ rest) i).length := by
  induction rest generalizing done with
  | nil => rw [append_nil]
  | cons f rest ih =>
    have next := ih (done ++ [f])
    rw [append_assoc, singleton_append] at next
    refine Nat.le_trans ?_ next
    rw [contents_concat]
    by_cases last : i = done.length + 2
    · have none : contents done i = [] := by
        subst last
        show (done[done.length]?.map Input.content).getD [] = []
        rw [List.getElem?_eq_none le_rfl]
        rfl
      rw [none]
      exact Nat.zero_le _
    · rw [update_of_ne last]
      by_cases root : i = 1
      · subst root
        rw [update_self, length_append]
        exact Nat.le_add_right _ _
      · rw [update_of_ne root]

theorem Image.addFile (image : Image s nodes (contents done)) (rest : List Input)
    (inodes : s.freeinode = done.length + 2) (inside : done.length + 2 < places) :
    Ends (fun _ => ¬ Fits (done ++ f :: rest))
      (fun next => next.freeinode = done.length + 3 ∧
        ∃ nodes', Image next nodes' (contents (done ++ [f])))
      (Mkfs.addFile f s) := by
  have mem : f ∈ done ++ f :: rest := List.mem_append_right _ (List.mem_cons_self ..)
  have whole : done ++ f :: rest = done ++ [f] ++ rest := by
    rw [append_assoc, singleton_append]
  have new : contents done (done.length + 2) = [] := image.empty inodes.le
  have large {c : Nat → List UInt8} {n : Nat}
      (le : ∀ i, (c i).length ≤ (contents (done ++ [f]) i).length)
      (fewer : n ≤ done.length + 3) (large : ¬ Fit c n) : ¬ Fits (done ++ f :: rest) := by
    intro fits
    refine large (fits.fit.mono (fun i => ?_) ?_)
    · rw [whole]
      exact (le i).trans (contents_le _ _ _)
    · rw [length_append, List.length_cons]
      omega
  have steps {i : Nat} : (update (contents done) 1
      (contents done 1 ++ mkDirent (done.length + 2) f.name) i).length ≤
        (contents (done ++ [f]) i).length := by
    rw [contents_concat]
    by_cases last : i = done.length + 2
    · subst last
      rw [update_self, update_of_ne (by omega), new]
      exact Nat.zero_le _
    · rw [update_of_ne last]
  unfold Mkfs.addFile
  by_cases hasSlash : slash ∈ shortname f.path
  · rw [if_pos hasSlash]
    exact .error fun fits => (fits.names f mem).1 hasSlash
  rw [if_neg hasSlash]
  by_cases short : (skipUnderscore (shortname f.path)).length ≤ DIRSIZ
  · rw [if_pos short]
    have type : T_FILE = if s.freeinode = ROOTINO then T_DIR else T_FILE := by
      rw [if_neg (by unfold ROOTINO; omega)]
    refine ((image.ialloc (inodes ▸ inside) (by omega) type).errors fun _ => False.elim).bind ?_
    rintro ⟨inum, s1⟩ ⟨rfl, inodes1, nodes1, image1⟩
    dsimp only at inodes1 image1 ⊢
    rw [inodes] at inodes1 ⊢
    have root : Ends (fun _ => ¬ Fits (done ++ f :: rest)) _
        (Mkfs.iappend ROOTINO (mkDirent (done.length + 2) f.name) s1) :=
      (image1.iappend (by decide) (show 1 < s1.freeinode by omega) (by decide) _).errors
        fun _ => large (fun _ => steps) inodes1.le
    refine root.bind ?_
    rintro s2 ⟨inodes2, nodes2, image2⟩
    have inodes2 : s2.freeinode = done.length + 3 := inodes2.trans inodes1
    have total : update (update (contents done) 1
        (contents done 1 ++ mkDirent (done.length + 2) f.name)) (done.length + 2)
          (update (contents done) 1
            (contents done 1 ++ mkDirent (done.length + 2) f.name) (done.length + 2) ++
              f.chunks.flatten) = contents (done ++ [f]) := by
      rw [contents_concat, update_of_ne (show done.length + 2 ≠ 1 by omega), new,
        List.nil_append]
      rfl
    have file := image2.appendChunks (i := done.length + 2) (by omega) (by omega) inside f.chunks
    rw [total, inodes2] at file
    exact file.errors fun _ => large (fun _ => le_rfl) le_rfl
  · rw [if_neg short]
    exact .error fun fits => short (fits.names f mem).2

theorem Image.addFiles (image : Image s nodes (contents done))
    (inodes : s.freeinode = done.length + 2) (inside : (done ++ files).length + 2 ≤ places) :
    Ends (fun _ => ¬ Fits (done ++ files))
      (fun next => next.freeinode = (done ++ files).length + 2 ∧
        ∃ nodes', Image next nodes' (contents (done ++ files)))
      (Mkfs.addFiles files s) := by
  induction files generalizing s nodes done with
  | nil =>
    rw [append_nil]
    exact .ok ⟨inodes, nodes, image⟩
  | cons f files ih =>
    have place : done.length + 2 < places := by
      rw [length_append, List.length_cons] at inside
      omega
    refine (image.addFile files inodes place).bind ?_
    rintro s1 ⟨inodes1, nodes1, image1⟩
    have rest := ih image1 (by rw [inodes1, length_append]; rfl)
      (by rwa [append_assoc, singleton_append])
    rwa [append_assoc, singleton_append] at rest

theorem number_empty (disk : Disk) (x : BlockSlot) : Dinode.number {} disk x = 0 := by
  cases x with
  | addr k => rfl
  | entry j => exact (Dinode.number_entry rfl _ j).trans (if_pos rfl)

theorem zeroed_disk (other : b ≠ 1) : zeroed.disk b = fun _ => 0 := if_neg other

theorem image_zeroed : Image zeroed (fun _ => {}) fun _ => [] where
  laid := by
    refine ⟨le_rfl, .of_none Multiset.nodup_zero (fun away => away.elim) fun y => ?_,
      fun b above => ?_⟩
    · exact if_pos (number_empty _ _)
    · have : 1 < zeroed.freeblock := by decide
      exact zeroed_disk (by omega)
  room := by decide
  count := rfl
  super := Disk.set_self (fun _ _ => 0) 1 superblock
  stored i _ := by
    have far := one_lt_iblock i
    have zero (w : Nat) : (zeroed.disk (sb.iblock i)).word w = 0 := by
      rw [zeroed_disk (by omega)]
      simp [Bytes.word, Bytes.byte]
    unfold Disk.dinode
    simp only [zero]
    rfl
  holds i := by
    refine ⟨fun x => ?_, fun q => ?_⟩
    · simp [number_empty]
    unfold Dinode.byteAt
    split
    · unfold Dinode.data
      rw [if_pos (number_empty _ _)]
      rfl
    · rfl
  size i := rfl
  short i := Nat.zero_le _
  kind i pos lt := by
    have : i < 1 := lt
    omega
  unused i _ := rfl

/-- The image that `main` leaves behind when it has built `s`. -/
def finished (s : State) (nodes : Nat → Dinode) : State :=
  wsect sb.bmapstart (bitmap s.freeblock) { s with
    disk := s.disk.setDinode sb ROOTINO { nodes ROOTINO with
      size := UInt32.ofNat (((nodes ROOTINO).size.toNat / BSIZE + 1) * BSIZE) } }

/-- `main` makes an image of the files, if they fit. -/
theorem main_ends (files : List Input) (inside : files.length + 2 ≤ places) :
    Ends (fun _ => ¬ Fits files)
      (fun next => ∃ s nodes, Image s nodes (contents files) ∧ s.freeinode = files.length + 2 ∧
        next = finished s nodes)
      (main files) := by
  have large {c : Nat → List UInt8} (le : ∀ i, (c i).length ≤ (contents [] i).length)
      (large : ¬ Fit c 2) : ¬ Fits files := by
    intro fits
    refine large (fits.fit.mono (fun i => (le i).trans ?_) (Nat.le_add_left _ _))
    exact contents_le [] files i
  have one (i : Nat) : (update (fun _ => []) 1 ([] ++ mkDirent ROOTINO dot) i).length ≤
      (contents [] i).length := by
    match i with
    | 0 => exact le_rfl
    | 1 =>
      decide
    | k + 2 => exact Nat.zero_le _
  have both : update (update (fun _ => []) 1 ([] ++ mkDirent ROOTINO dot)) 1
      (update (fun _ => []) 1 ([] ++ mkDirent ROOTINO dot) 1 ++ mkDirent ROOTINO dotdot) =
        contents [] := by
    funext i
    rw [update_idem, update_self, List.nil_append]
    match i with
    | 0 => rfl
    | 1 =>
      rfl
    | k + 2 => rfl
  refine ((image_zeroed.ialloc (by decide) (by decide) rfl).errors fun _ => False.elim).bind ?_
  rintro ⟨rootino, s1⟩ ⟨rfl, inodes1, nodes1, image1⟩
  have inodes1 : s1.freeinode = 2 := inodes1
  have image1 : Image s1 nodes1 fun _ => [] := image1
  have first := image1.iappend (i := 1) (by decide) (by omega) (by decide) (mkDirent ROOTINO dot)
  rw [inodes1] at first
  refine (first.errors fun _ => large one).bind ?_
  rintro s2 ⟨inodes2, nodes2, image2⟩
  have second := image2.iappend (i := 1) (by decide) (by omega) (by decide)
      (mkDirent ROOTINO dotdot)
  rw [both, inodes2] at second
  refine (second.errors fun _ => large fun i => le_rfl).bind ?_
  rintro s3 ⟨inodes3, nodes3, image3⟩
  refine (image3.addFiles inodes3 inside).bind ?_
  rintro s ⟨inodes, nodes, image⟩
  have root : ROOTINO < places := by decide
  have fixed : fixRoot ROOTINO s = .ok { s with
      disk := s.disk.setDinode sb ROOTINO { nodes ROOTINO with
        size := UInt32.ofNat (((nodes ROOTINO).size.toNat / BSIZE + 1) * BSIZE) } } := by
    unfold fixRoot rinode Mkfs.winode
    rw [rsect_inode root, ← image.stored _ root]
    rfl
  have used : s.freeblock < BPB := Nat.lt_of_le_of_lt image.room (by decide)
  show Ends _ _ (fixRoot ROOTINO s >>= _)
  rw [fixed]
  show Ends _ _ (balloc s.freeblock _)
  unfold balloc
  rw [if_pos used]
  exact .ok ⟨s, nodes, image, inodes, rfl⟩

end Files

end Xv6.Mkfs
