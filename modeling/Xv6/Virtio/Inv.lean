import Xv6.Lib.Monitor
import Xv6.Virtio.Basic

/-!
# The invariants of the disk driver

`Chains` is about the descriptors and who has them, `Locked` about `vdisk_lock` and the
sleep-locks, `Formats` about what is in the descriptors of a request.

They are stated about the components of the state that they depend on, so that a step that
changes others has nothing to show.
-/

set_option linter.unusedSectionVars false

namespace Xv6.Virtio

open Function (update update_self update_of_ne update_idem)
open Log (BSIZE Block)
open Monitor (Held)

/-! ## Allocation of descriptors -/

section Disk

variable {B : Type} {d : Disk B}

/-- `alloc_desc` takes a free descriptor, or there is none. -/
theorem allocDesc_cases (d : Disk B) :
    d.allocDesc = (none, d) ∨ ∃ i, i < NUM ∧ d.free i = true ∧
      d.allocDesc = (some i, { d with free := update d.free i false }) := by
  unfold Disk.allocDesc
  cases found : (List.range NUM).find? d.free with
  | none => exact .inl rfl
  | some i =>
    have small := List.mem_range.mp (List.mem_of_find?_eq_some found)
    exact .inr ⟨i, small, List.find?_some found, rfl⟩

theorem freeDesc_used (small : i < NUM) (used : d.free i = false) :
    d.freeDesc i = .ok { d with
      desc := update d.desc i {}, free := update d.free i true } := by
  unfold Disk.freeDesc
  rw [if_neg (by omega), used]
  rfl

theorem update_false (f : Nat → Bool) (a i : Nat) :
    update f a false i = (f i && decide (i ≠ a)) := by
  by_cases here : i = a
  · simp [here]
  · simp [here]

theorem update_true (f : Nat → Bool) (a i : Nat) : update f a true i = (f i || decide (i = a)) := by
  by_cases here : i = a
  · simp [here]
  · simp [here]

/-- `alloc3_desc` finds three free descriptors, or it leaves all as it was but for descriptors
that are free. -/
theorem alloc3Desc_cases (d : Disk B) :
    (∃ desc', d.alloc3Desc = .ok (none, { d with desc := desc' }) ∧
      ∀ j, d.free j = false → desc' j = d.desc j) ∨
    ∃ a b c free', d.alloc3Desc = .ok (some (a, b, c), { d with free := free' }) ∧
      [a, b, c].Nodup ∧ (∀ i ∈ [a, b, c], i < NUM ∧ d.free i = true) ∧
      ∀ i, free' i = (d.free i && decide (i ∉ [a, b, c])) := by
  have other {a j : Nat} (free : d.free a = true) (used : d.free j = false) : j ≠ a := by
    rintro rfl
    rw [free] at used
    cases used
  unfold Disk.alloc3Desc
  rcases allocDesc_cases d with none | ⟨a, smallA, freeA, found⟩
  · rw [none]
    exact .inl ⟨d.desc, rfl, fun _ _ => rfl⟩
  rw [found]
  dsimp only
  rcases allocDesc_cases { d with free := update d.free a false } with
    none | ⟨b, smallB, freeB, found⟩
  · rw [none]
    dsimp only
    rw [freeDesc_used smallA (update_self ..)]
    have restored : update (update d.free a false) a true = d.free := by
      rw [update_idem]
      exact Function.update_eq_self_iff.mpr freeA.symm
    refine .inl ⟨update d.desc a {}, ?_, fun j used => ?_⟩
    · dsimp only [Except.map]
      rw [restored]
    · exact update_of_ne (other freeA used) ..
  rw [found]
  dsimp only at freeB ⊢
  rw [update_false, Bool.and_eq_true, decide_eq_true_eq] at freeB
  obtain ⟨freeB, bNeA⟩ := freeB
  rcases allocDesc_cases
    { d with free := update (update d.free a false) b false } with
    none | ⟨c, smallC, freeC, found⟩
  · rw [none]
    dsimp only
    have usedA : update (update d.free a false) b false a = false := by
      rw [update_of_ne bNeA.symm, update_self]
    rw [freeDesc_used smallA usedA]
    dsimp only [Except.bind]
    have usedB : update (update (update d.free a false) b false) a true b =
        false := by
      rw [update_of_ne bNeA, update_self]
    rw [freeDesc_used smallB usedB]
    have restored : update (update
        (update (update d.free a false) b false) a true) b true = d.free := by
      funext i
      by_cases isB : i = b
      · rw [isB, update_self, freeB]
      · by_cases isA : i = a
        · rw [update_of_ne isB, isA, update_self, freeA]
        · rw [update_of_ne isB, update_of_ne isA, update_of_ne isB,
            update_of_ne isA]
    refine .inl ⟨update (update d.desc a {}) b {}, ?_, fun j used => ?_⟩
    · dsimp only [Except.map]
      rw [restored]
    · rw [update_of_ne (other freeB used), update_of_ne (other freeA used)]
  rw [found]
  simp only [update_false, Bool.and_eq_true, decide_eq_true_eq] at freeC
  obtain ⟨⟨freeC, cNeA⟩, cNeB⟩ := freeC
  refine .inr ⟨a, b, c, _, rfl, ?_, ?_, fun i => ?_⟩
  · simp only [List.nodup_cons, List.mem_cons, List.not_mem_nil, or_false, not_or,
      not_false_eq_true, List.nodup_nil, and_true]
    exact ⟨⟨bNeA.symm, cNeA.symm⟩, cNeB.symm⟩
  · simp only [List.mem_cons, List.not_mem_nil, or_false]
    rintro i (rfl | rfl | rfl)
    · exact ⟨smallA, freeA⟩
    · exact ⟨smallB, freeB⟩
    · exact ⟨smallC, freeC⟩
  · simp only [update_false, List.mem_cons, List.not_mem_nil, or_false, not_or, Bool.decide_and,
      Bool.and_assoc]

/-! ## Chains of descriptors -/

/-- The descriptors of a request are a chain. -/
structure Linked (desc : Nat → VirtqDesc B) (r : Request B) : Prop where
  first : desc r.idx0 =
    { addr := .op r.idx0, len := 16, flags := VRING_DESC_F_NEXT, next := r.idx1 }
  second : desc r.idx1 =
    { addr := .data r.b, len := BSIZE, next := r.idx2
      flags := (if r.write then 0 else VRING_DESC_F_WRITE) ||| VRING_DESC_F_NEXT }
  third : desc r.idx2 =
    { addr := .status r.idx0, len := 1, flags := VRING_DESC_F_WRITE, next := 0 }

/-- The descriptors of a request are filled in, for a block at `sector`. -/
structure Shape (desc : Nat → VirtqDesc B) (ops : Nat → VirtioBlkReq) (info : Nat → Info B)
    (r : Request B) (sector : Nat) : Prop extends Linked desc r where
  op : ops r.idx0 =
    { type := if r.write then VIRTIO_BLK_T_OUT else VIRTIO_BLK_T_IN, sector := sector }
  info : (info r.idx0).b = some r.b

variable {r : Request B} {sector : Nat} {desc desc' : Nat → VirtqDesc B}
  {ops ops' : Nat → VirtioBlkReq} {info info' : Nat → Info B}

theorem Request.nodup_idx (nodup : r.idx.Nodup) :
    r.idx0 ≠ r.idx1 ∧ r.idx0 ≠ r.idx2 ∧ r.idx1 ≠ r.idx2 := by
  unfold Request.idx at nodup
  simp only [List.nodup_cons, List.mem_cons, List.not_mem_nil, or_false, not_or] at nodup
  exact ⟨nodup.1.1, nodup.1.2, nodup.2.1⟩

theorem Request.mem_idx : i ∈ r.idx ↔ i = r.idx0 ∨ i = r.idx1 ∨ i = r.idx2 := by
  unfold Request.idx
  simp only [List.mem_cons, List.not_mem_nil, or_false]

/-- What `virtio_disk_rw` writes is a chain of three descriptors. -/
theorem Shape.format (d : Disk B) (nodup : r.idx.Nodup) (sector : Nat) :
    Shape (d.format r sector).desc (d.format r sector).ops (d.format r sector).info r sector := by
  obtain ⟨ne01, ne02, ne12⟩ := Request.nodup_idx nodup
  unfold Disk.format
  refine ⟨⟨?_, ?_, ?_⟩, ?_, ?_⟩
  · dsimp only
    rw [update_of_ne ne02, update_of_ne ne01, update_self]
  · dsimp only
    rw [update_of_ne ne12, update_self]
  · exact update_self ..
  · exact update_self ..
  · dsimp only
    rw [update_self]

/-- A chain depends on its own descriptors only. -/
theorem Shape.congr (shape : Shape desc ops info r sector) (same : ∀ i ∈ r.idx, desc' i = desc i)
    (op : ops' r.idx0 = ops r.idx0) (buf : (info' r.idx0).b = (info r.idx0).b) :
    Shape desc' ops' info' r sector where
  first := (same _ (Request.mem_idx.mpr (.inl rfl))).trans shape.first
  second := (same _ (Request.mem_idx.mpr (.inr (.inl rfl)))).trans shape.second
  third := (same _ (Request.mem_idx.mpr (.inr (.inr rfl)))).trans shape.third
  op := op.trans shape.op
  info := buf.trans shape.info

theorem freeChain_next (small : i < NUM) (used : d.free i = false)
    (next : (d.desc i).flags &&& VRING_DESC_F_NEXT ≠ 0) :
    Disk.freeChain (fuel + 1) d i = Disk.freeChain fuel { d with
      desc := update d.desc i {}, free := update d.free i true }
      (d.desc i).next := by
  rw [Disk.freeChain, freeDesc_used small used]
  exact if_pos next

theorem freeChain_last (small : i < NUM) (used : d.free i = false)
    (last : ¬ (d.desc i).flags &&& VRING_DESC_F_NEXT ≠ 0) :
    Disk.freeChain (fuel + 1) d i = .ok { d with
      desc := update d.desc i {}, free := update d.free i true } := by
  rw [Disk.freeChain, freeDesc_used small used]
  exact if_neg last

/-- `free_chain` frees the three descriptors of a request and no others. -/
theorem freeChain_linked (linked : Linked d.desc r) (nodup : r.idx.Nodup)
    (used : ∀ i ∈ r.idx, i < NUM ∧ d.free i = false) :
    ∃ desc' free', Disk.freeChain (NUM + 1) d r.idx0 = .ok { d with desc := desc', free := free' } ∧
      (∀ j ∉ r.idx, desc' j = d.desc j) ∧ ∀ i, free' i = (d.free i || decide (i ∈ r.idx)) := by
  obtain ⟨ne01, ne02, ne12⟩ := Request.nodup_idx nodup
  obtain ⟨small0, used0⟩ := used r.idx0 (Request.mem_idx.mpr (.inl rfl))
  obtain ⟨small1, used1⟩ := used r.idx1 (Request.mem_idx.mpr (.inr (.inl rfl)))
  obtain ⟨small2, used2⟩ := used r.idx2 (Request.mem_idx.mpr (.inr (.inr rfl)))
  have more : ((if r.write then 0 else VRING_DESC_F_WRITE) ||| VRING_DESC_F_NEXT) &&&
      VRING_DESC_F_NEXT ≠ 0 := by
    cases r.write <;> decide
  have first : (d.desc r.idx0).flags &&& VRING_DESC_F_NEXT ≠ 0 := by
    rw [linked.first]
    show VRING_DESC_F_NEXT &&& VRING_DESC_F_NEXT ≠ 0
    decide
  have third : ¬ VRING_DESC_F_WRITE &&& VRING_DESC_F_NEXT ≠ 0 := by decide
  have desc1 : update d.desc r.idx0 {} r.idx1 = d.desc r.idx1 :=
    update_of_ne ne01.symm ..
  have desc2 : update (update d.desc r.idx0 {}) r.idx1 {} r.idx2 = d.desc r.idx2 := by
    rw [update_of_ne ne12.symm, update_of_ne ne02.symm]
  have free1 : update d.free r.idx0 true r.idx1 = false := by
    rw [update_of_ne ne01.symm]
    exact used1
  have free2 : update (update d.free r.idx0 true) r.idx1 true r.idx2 = false := by
    rw [update_of_ne ne12.symm, update_of_ne ne02.symm]
    exact used2
  rw [show NUM + 1 = 6 + 1 + 1 + 1 from rfl, freeChain_next small0 used0 first, linked.first,
    freeChain_next small1 free1 (by dsimp only; rw [desc1, linked.second]; exact more)]
  dsimp only
  rw [desc1, linked.second,
    freeChain_last small2 free2 (by dsimp only; rw [desc2, linked.third]; exact third)]
  refine ⟨_, _, rfl, fun j outside => ?_, fun i => ?_⟩
  · rw [Request.mem_idx, not_or, not_or] at outside
    rw [update_of_ne outside.2.2]
    dsimp only
    rw [update_of_ne outside.2.1, update_of_ne outside.1]
  · simp only [update_true, Request.mem_idx, Bool.decide_or, Bool.or_assoc]

end Disk

/-! ## Threads and locks -/

/-- The points at which a thread has `vdisk_lock`. -/
def Pc.inside {B : Type} : Pc B → Bool
  | .alloc _ _ | .format _ | .fill _ | .publish _ | .wait _ | .finish _ | .intrTest | .intrHandle
  | .intrAdvance => true
  | _ => false

/-- The buffer that a thread is in `virtio_disk_rw` with. -/
def Pc.buffer {B : Type} : Pc B → Option B
  | .acquire b _ | .alloc b _ | .sleepFree b _ => some b
  | .format r | .fill r | .publish r | .wait r | .sleepBuf r | .finish r => some r.b
  | _ => none

section Inv

variable {P B : Type} [DecidableEq P] {lock lock' : Option P} {pc : P → Pc B} {own : B → Option P}
  {p q : P} {b : B} {r r' : Request B} {c : Pc B} {i : Nat}

theorem update_eq_iff {β : Type} {f : P → β} {v x : β} :
    update f p v q = x ↔ q = p ∧ v = x ∨ q ≠ p ∧ f q = x := by
  by_cases here : q = p
  · simp [here]
  · simp [here]

theorem comp_update_same {β : Type} (f : Pc B → β) (same : f c = f (pc p)) :
    f ∘ update pc p c = f ∘ pc := by
  rw [Function.comp_update]
  exact Function.update_eq_self_iff.mpr same

theorem Pc.request_of_formatted (is : c.formatted = some r) : c.request = some r := by
  cases c <;> first | exact is | cases is

theorem Pc.formatted_of_sent (is : c.sent = some r) : c.formatted = some r := by
  cases c <;> first | exact is | cases is

theorem Pc.request_of_sent (is : c.sent = some r) : c.request = some r :=
  Pc.request_of_formatted (Pc.formatted_of_sent is)

theorem Pc.buffer_of_request (is : c.request = some r) : c.buffer = some r.b := by
  cases c <;> first | (cases is; rfl) | cases is

/-- Who is inside has `vdisk_lock`, and a call has the sleep-lock of its buffer. -/
structure Locked (lock : Option P) (pc : P → Pc B) (own : B → Option P) : Prop where
  held : Held Pc.inside lock pc
  holder : ∀ p, lock = some p → (pc p).inside = true
  own : ∀ p b, (pc p).buffer = some b → own b = some p

section

variable (locked : Locked lock pc own)

include locked

theorem Locked.goes (held : Held Pc.inside lock' (update pc p c))
    (holder : ∀ q, lock' = some q → q = p ∧ c.inside = true ∨ q ≠ p ∧ lock = some q)
    (buffer : ∀ b, c.buffer = some b → own b = some p) : Locked lock' (update pc p c) own where
  held := held
  holder q has := by
    rcases holder q has with ⟨rfl, inside⟩ | ⟨other, before⟩
    · rw [update_self]
      exact inside
    · rw [update_of_ne other]
      exact locked.holder q before
  own q b is := by
    by_cases same : q = p
    · rw [same, update_self] at is
      rw [same]
      exact buffer b is
    · rw [update_of_ne same] at is
      exact locked.own q b is

theorem Locked.outside (here : (pc p).inside = false)
    (there : c.inside = false) (buffer : ∀ b, c.buffer = some b → own b = some p) :
    Locked lock (update pc p c) own := by
  refine locked.goes (locked.held.goes fun inside => ?_) (fun q has => .inr ⟨?_, has⟩) buffer
  · rw [there] at inside
    cases inside
  · rintro rfl
    rw [locked.holder q has] at here
    cases here

theorem Locked.inside (here : (pc p).inside = true)
    (there : c.inside = true) (same : c.buffer = (pc p).buffer) :
    Locked lock (update pc p c) own := by
  have mine : lock = some p := locked.held p here
  refine locked.goes (locked.held.goes fun _ => mine) (fun q has => .inl ⟨?_, there⟩) fun b is => ?_
  · exact Option.some.inj (has.symm.trans mine)
  · exact locked.own p b (same ▸ is)

theorem Locked.acquires (free : lock = none) (there : c.inside = true)
    (same : c.buffer = (pc p).buffer) : Locked (some p) (update pc p c) own :=
  locked.goes (locked.held.acquire free) (fun _ has => .inl ⟨(Option.some.inj has).symm, there⟩)
    fun b is => locked.own p b (same ▸ is)

theorem Locked.releases (here : (pc p).inside = true)
    (there : c.inside = false) (buffer : ∀ b, c.buffer = some b → (pc p).buffer = some b) :
    Locked none (update pc p c) own :=
  locked.goes (locked.held.release (locked.held p here) there) nofun
    fun b is => locked.own p b (buffer b is)

theorem Locked.congr (same : ∀ b, own' b = own b) :
    Locked lock pc own' :=
  ⟨locked.held, locked.holder, fun p b is => (same b).trans (locked.own p b is)⟩

end

/-! ## Descriptors -/

/-- The free descriptors are those of no request, and no two requests have one in common. -/
structure Chains (free : Nat → Bool) (request : P → Option (Request B)) : Prop where
  free : ∀ i, free i = true ↔ i < NUM ∧ ∀ p r, request p = some r → i ∉ r.idx
  each : ∀ p r, request p = some r → r.idx.Nodup ∧ ∀ i ∈ r.idx, i < NUM
  apart : ∀ p q r r' i, request p = some r → request q = some r' → i ∈ r.idx → i ∈ r'.idx → q = p

variable {free free' : Nat → Bool} {request : P → Option (Request B)}

theorem Chains.used (chains : Chains free request) (is : request p = some r) (mem : i ∈ r.idx) :
    free i = false :=
  Bool.eq_false_iff.mpr fun free => ((chains.free i).mp free).2 p r is mem

/-- Two requests have no descriptor in common. -/
theorem Chains.other (chains : Chains free request) (mine : request p = some r)
    (has : request q = some r') (ne : q ≠ p) (mem : i ∈ r'.idx) : i ∉ r.idx :=
  fun here => ne (chains.apart p q r r' i mine has here mem)

/-- Three free descriptors become those of a request. -/
theorem Chains.allocate (chains : Chains free request) (none : request p = none)
    (nodup : r.idx.Nodup) (before : ∀ i ∈ r.idx, i < NUM ∧ free i = true)
    (after : ∀ i, free' i = (free i && decide (i ∉ r.idx))) :
    Chains free' (update request p (some r)) := by
  have fresh {q : P} {r' : Request B} {i : Nat} (has : request q = some r') (mem : i ∈ r'.idx) :
      i ∉ r.idx := fun new => ((chains.free i).mp (before i new).2).2 q r' has mem
  refine ⟨fun i => ?_, fun q r' has => ?_, fun q q' r1 r2 i has has' mem mem' => ?_⟩
  · rw [after, Bool.and_eq_true, decide_eq_true_eq, chains.free]
    constructor
    · rintro ⟨⟨small, outside⟩, new⟩
      refine ⟨small, fun q r' has => ?_⟩
      rcases update_eq_iff.mp has with ⟨-, ⟨⟩⟩ | ⟨-, has⟩
      · exact new
      · exact outside q r' has
    · rintro ⟨small, outside⟩
      refine ⟨⟨small, fun q r' has => outside q r' (update_eq_iff.mpr (.inr ⟨?_, has⟩))⟩,
        outside p r (update_self ..)⟩
      rintro rfl
      rw [none] at has
      cases has
  · rcases update_eq_iff.mp has with ⟨-, ⟨⟩⟩ | ⟨-, has⟩
    · exact ⟨nodup, fun i mem => (before i mem).1⟩
    · exact chains.each q r' has
  · rcases update_eq_iff.mp has with ⟨rfl, ⟨⟩⟩ | ⟨-, has⟩
    · rcases update_eq_iff.mp has' with ⟨rfl, -⟩ | ⟨-, has'⟩
      · rfl
      · exact absurd mem (fresh has' mem')
    · rcases update_eq_iff.mp has' with ⟨-, ⟨⟩⟩ | ⟨-, has'⟩
      · exact absurd mem' (fresh has mem)
      · exact chains.apart q q' r1 r2 i has has' mem mem'

/-- The descriptors of a request that ends are free. -/
theorem Chains.release (chains : Chains free request) (has : request p = some r)
    (after : ∀ i, free' i = (free i || decide (i ∈ r.idx))) :
    Chains free' (update request p none) := by
  have others {q : P} {r' : Request B} (is : update request p none q = some r') :
      q ≠ p ∧ request q = some r' := (update_eq_iff.mp is).resolve_left fun here => nomatch here.2
  refine ⟨fun i => ?_, fun q r' is => chains.each q r' (others is).2,
    fun q q' r1 r2 i is is' => chains.apart q q' r1 r2 i (others is).2 (others is').2⟩
  rw [after, Bool.or_eq_true, decide_eq_true_eq, chains.free]
  constructor
  · rintro (⟨small, outside⟩ | mem)
    · exact ⟨small, fun q r' is => outside q r' (others is).2⟩
    · refine ⟨(chains.each p r has).2 i mem, fun q r' is mem' => (others is).1 ?_⟩
      exact chains.apart p q r r' i has (others is).2 mem mem'
  rintro ⟨small, outside⟩
  by_cases mem : i ∈ r.idx
  · exact .inr mem
  refine .inl ⟨small, fun q r' is => ?_⟩
  by_cases here : q = p
  · rw [here, has] at is
    cases is
    exact mem
  · exact outside q r' (update_eq_iff.mpr (.inr ⟨here, is⟩))

theorem Chains.goes (chains : Chains free (Pc.request ∘ pc)) (same : c.request = (pc p).request) :
    Chains free (Pc.request ∘ update pc p c) := by
  rw [comp_update_same _ same]
  exact chains

/-- The descriptors of the requests are filled in. -/
def Formats (desc : Nat → VirtqDesc B) (ops : Nat → VirtioBlkReq) (info : Nat → Info B)
    (sector : B → Nat) (formatted : P → Option (Request B)) : Prop :=
  ∀ p r, formatted p = some r → Shape desc ops info r (sector r.b)

theorem Formats.congr (formats : Formats desc ops info sector formatted)
    (same : ∀ b, sector' b = sector b) : Formats desc ops info sector' formatted := fun p r is =>
      same r.b ▸ formats p r is

theorem Formats.goes (formats : Formats desc ops info sector (Pc.formatted ∘ pc))
    (same : c.formatted = (pc p).formatted) :
    Formats desc ops info sector (Pc.formatted ∘ update pc p c) := by
  rw [comp_update_same _ same]
  exact formats

end Inv

end Xv6.Virtio
