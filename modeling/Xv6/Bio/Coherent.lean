import Xv6.Bio.Inv

/-!
# The buffer cache stands for an array of blocks

The locks and the data under each step of the sessions, and with them the whole invariant. Only
the holder of a buffer's lock changes its data, its block on the disk or the block's place in the
log, so that what the other sessions rely on stays.
-/

namespace Xv6.Bio

open Xv6.Log (Block)
open Function (update update_of_ne update_self)
open State (enter_cache move_held session_spec)
open Cache (assign_same brelse_same)

variable {dev d b t : Nat} {c c' : Cache} {s s' : State} {a : Action} {effect : Option Effect}
  {array array' : Nat → Block} {i j : Fin NBUF} {u v : Session} {stage : Stage} {p : Stage → Bool}
  {copy : Copy}

/-! ## Locks -/

/-- Session `t` is at a point where it has the sleep-lock of buffer `i`. -/
def State.Holder (s : State) (i : Fin NBUF) (t : Nat) : Prop :=
  ∃ u ∈ s.sessions, u.id = t ∧ u.buf = i ∧ u.stage.holdingsleep = true

section

variable (locks : Locks s)

include locks

section

variable (mem : u ∈ s.sessions)

include mem

theorem Locks.holder_iff :
    s.Holder i u.id ↔ u.buf = i ∧ u.stage.holdingsleep = true := by
  constructor
  · rintro ⟨v, memV, same, at_⟩
    rw [← locks.inj memV mem same]
    exact at_
  · intro at_
    exact ⟨u, mem, rfl, at_⟩

theorem Locks.holder_move :
    (s.move c u.id stage).Holder i t ↔
      if t = u.id then u.buf = i ∧ stage.holdingsleep = true else s.Holder i t := by
  unfold State.Holder
  simp only [locks.mem_move mem]
  split
  · next same =>
    constructor
    · rintro ⟨v, rfl | ⟨-, other⟩, id, at_⟩
      · exact at_
      · exact absurd (id.trans same) other
    · intro at_
      exact ⟨_, .inl rfl, same.symm, at_⟩
  · next other =>
    constructor
    · rintro ⟨v, rfl | ⟨memV, -⟩, id, at_⟩
      · exact absurd id.symm other
      · exact ⟨v, memV, id, at_⟩
    · rintro ⟨v, memV, id, at_⟩
      exact ⟨v, .inr ⟨memV, fun same => other (id.symm.trans same)⟩, id, at_⟩

/-- The rule for a session that goes on: only its own hold on its buffer matters. -/
theorem Locks.of_holder_move (lock : ∀ i t, (c.buf i).lock = some t ↔
    (s.move c u.id stage).Holder i t) : Locks (s.move c u.id stage) := by
  refine ⟨?_, ?_, lock⟩
  · rw [State.move_ids]
    exact locks.ids
  · intro v memV
    rcases (locks.mem_move mem).mp memV with rfl | ⟨memV, -⟩
    · exact locks.born u mem
    · exact locks.born v memV

theorem Locks.of_move (lock : ∀ i, (c.buf i).lock = (s.cache.buf i).lock)
    (stays : stage.holdingsleep = u.stage.holdingsleep) : Locks (s.move c u.id stage) := by
  refine locks.of_holder_move mem fun i t => ?_
  rw [lock, locks.holder_move mem]
  split
  · next same =>
    rw [same, stays, ← locks.holder_iff mem]
    exact locks.lock i u.id
  · exact locks.lock i t

theorem Locks.acquiresleep (waits : u.stage = .waiting)
    (free : (s.cache.buf u.buf).lock = none) :
    Locks (s.move (s.cache.acquiresleep u.buf u.id) u.id .locked) := by
  refine locks.of_holder_move mem fun i t => ?_
  rw [locks.holder_move mem]
  unfold Cache.acquiresleep
  by_cases at_ : i = u.buf
  · rw [at_, Cache.assign_self]
    split
    · next same => simp [same, Stage.holdingsleep]
    rename_i other
    have nobody : ¬ s.Holder u.buf t := by
      intro holds
      have := (locks.lock u.buf t).mpr holds
      rw [free] at this
      cases this
    simp [nobody, Ne.symm other]
  · rw [Cache.assign_other _ at_]
    refine (locks.lock i t).trans ?_
    split
    · next same =>
      have idle : ¬ s.Holder i u.id := by
        rw [locks.holder_iff mem, waits]
        exact fun holds => nomatch holds.2
      rw [same]
      exact ⟨fun holds => absurd holds idle, fun holds => absurd holds.1.symm at_⟩
    · exact Iff.rfl

theorem Locks.releasesleep (holds : u.stage.holdingsleep = true) :
    Locks (s.move (s.cache.releasesleep u.buf) u.id .unlocked) := by
  refine locks.of_holder_move mem fun i t => ?_
  rw [locks.holder_move mem]
  unfold Cache.releasesleep
  have mine : (s.cache.buf u.buf).lock = some u.id :=
    (locks.lock u.buf u.id).mpr ((locks.holder_iff mem).mpr ⟨rfl, holds⟩)
  by_cases at_ : i = u.buf
  · rw [at_, Cache.assign_self]
    split
    · simp [Stage.holdingsleep]
    rename_i other
    refine ⟨nofun, fun holds => ?_⟩
    have theirs := (locks.lock u.buf t).mpr holds
    rw [mine] at theirs
    exact absurd (Option.some.inj theirs).symm other
  · rw [Cache.assign_other _ at_]
    refine (locks.lock i t).trans ?_
    split
    · next same =>
      rw [same]
      refine ⟨fun holds => ?_, fun holds => nomatch holds.2⟩
      exact absurd ((locks.holder_iff mem).mp holds).1.symm at_
    · exact Iff.rfl

end

theorem Locks.enter (lock : ∀ i, (c.buf i).lock = (s.cache.buf i).lock) :
    Locks (s.enter c i) := by
  refine ⟨?_, ?_, ?_⟩
  · refine List.nodup_cons.mpr ⟨?_, locks.ids⟩
    intro mem
    obtain ⟨v, memV, same⟩ := List.mem_map.mp mem
    exact Nat.lt_irrefl _ (same ▸ locks.born v memV)
  · intro v memV
    rcases List.mem_cons.mp memV with rfl | memV
    · exact Nat.lt_succ_self _
    · exact Nat.lt_succ_of_lt (locks.born v memV)
  intro j t
  rw [enter_cache, lock]
  refine (locks.lock j t).trans ⟨?_, ?_⟩
  · rintro ⟨v, memV, at_⟩
    exact ⟨v, List.mem_cons_of_mem _ memV, at_⟩
  · rintro ⟨v, memV, id, at_, holds⟩
    rcases List.mem_cons.mp memV with rfl | memV
    · cases holds
    · exact ⟨v, memV, id, at_, holds⟩

theorem Locks.leave (mem : u ∈ s.sessions) (gone : u.stage = .unlocked)
    (lock : ∀ i, (c.buf i).lock = (s.cache.buf i).lock) : Locks (s.leave c u.id) := by
  refine ⟨?_, ?_, ?_⟩
  · exact locks.ids.sublist (List.filter_sublist.map _)
  · intro v memV
    exact locks.born v (List.mem_of_mem_filter memV)
  intro j t
  rw [State.leave_cache, lock]
  refine (locks.lock j t).trans ⟨?_, ?_⟩
  · rintro ⟨v, memV, id, at_, holds⟩
    have other : v.id ≠ u.id := by
      intro same
      rw [locks.inj memV mem same, gone] at holds
      cases holds
    exact ⟨v, List.mem_filter.mpr ⟨memV, by simpa using other⟩, id, at_, holds⟩
  · rintro ⟨v, memV, at_⟩
    exact ⟨v, List.mem_of_mem_filter memV, at_⟩

theorem Locks.of_same (sessions : s'.sessions = s.sessions)
    (nextId : s'.nextId = s.nextId)
    (lock : ∀ i, (s'.cache.buf i).lock = (s.cache.buf i).lock) : Locks s' := by
  obtain ⟨ids, born, holders⟩ := locks
  refine ⟨?_, ?_, ?_⟩
  · rwa [sessions]
  · rwa [sessions, nextId]
  · intro i t
    rw [lock, sessions]
    exact holders i t

end

/-! ## The data -/

/-- A step that leaves the data of the buffers and the disk alone. -/
structure SameData (c c' : Cache) : Prop extends SameKeys c c' where
  valid : ∀ i, (c'.buf i).valid = (c.buf i).valid
  data : ∀ i, (c'.buf i).data = (c.buf i).data
  disk : c'.disk = c.disk

theorem SameData.assign (dev : (f (c.buf i)).dev = (c.buf i).dev)
    (blockno : (f (c.buf i)).blockno = (c.buf i).blockno)
    (valid : (f (c.buf i)).valid = (c.buf i).valid) (data : (f (c.buf i)).data = (c.buf i).data) :
    SameData c (c.assign i f) :=
  ⟨.assign dev blockno, c.assign_same Buf.valid valid, c.assign_same Buf.data data, rfl⟩

theorem Cache.bpin_lock (c : Cache) (j : Fin NBUF) : ((c.bpin i).buf j).lock = (c.buf j).lock := by
  exact c.assign_same Buf.lock rfl j

theorem SameData.bpin : SameData c (c.bpin i) := .assign rfl rfl rfl rfl

theorem SameData.bunpin : SameData c (c.bunpin i) := .assign rfl rfl rfl rfl

theorem SameData.acquiresleep : SameData c (c.acquiresleep i t) := .assign rfl rfl rfl rfl

theorem SameData.releasesleep : SameData c (c.releasesleep i) := .assign rfl rfl rfl rfl

theorem SameKeys.fill : SameKeys c (c.fill i data) := .assign rfl rfl

/-- A step that keeps the keys and the data, and makes no session a holder. -/
theorem Current.of_same (current : Current dev s array) (same : SameData s.cache s'.cache)
    (lh : s'.lh = s.lh) (holders : ∀ v ∈ s'.sessions, v.stage.isHolding = true → v ∈ s.sessions)
    (modified : ∀ v ∈ s.sessions, v.stage = .holding .modified → v ∈ s'.sessions) :
    Current dev s' array := by
  refine ⟨?_, ?_, ?_, ?_, ?_⟩
  · intro b mem
    rw [lh] at mem
    obtain ⟨i, at_⟩ := current.logged b mem
    exact ⟨i, by rwa [same.dev, same.blockno, same.valid]⟩
  · intro v mem holds
    rw [same.valid]
    exact current.valid v (holders v mem holds) holds
  · intro i here valid clean
    rw [same.dev] at here
    rw [same.valid] at valid
    rw [same.data, same.blockno]
    refine current.clean i here valid fun v mem at_ dirty => ?_
    exact clean v (modified v mem dirty) at_ dirty
  · intro b out
    rw [same.disk]
    exact current.disk b (lh ▸ out)
  · intro v mem at_
    rw [same.disk, same.blockno]
    exact current.written v (holders v mem (by rw [at_]; rfl)) at_

/-- What the holder of a buffer does to it, to its block on the disk and in the log. -/
structure AtBlock (s s' : State) (i : Fin NBUF) (array array' : Nat → Block) : Prop where
  keys : SameKeys s.cache s'.cache
  others : ∀ j, j ≠ i → (s'.cache.buf j).valid = (s.cache.buf j).valid ∧
    (s'.cache.buf j).data = (s.cache.buf j).data
  blocks : ∀ b, b ≠ (s.cache.buf i).blockno → s'.cache.disk b = s.cache.disk b ∧
    array' b = array b ∧ (b ∈ s'.lh ↔ b ∈ s.lh)
  valid : (s'.cache.buf i).valid = true

/-! `log_write` with the lock held -/

/-- `log_write` absorbs a block that is in the log, and appends and pins any other. -/
theorem State.logWrite_eq :
    s.logWrite i = (s.cache, s.lh) ∧ (s.cache.buf i).blockno ∈ s.lh ∨
    s.logWrite i = (s.cache.bpin i, s.lh ++ [(s.cache.buf i).blockno]) := by
  unfold State.logWrite
  dsimp only
  split
  · next mem => exact .inl ⟨rfl, mem⟩
  · exact .inr rfl

theorem State.logWrite_links : (s.logWrite i).1.links = s.cache.links := by
  rcases s.logWrite_eq (i := i) with ⟨eq, -⟩ | eq
  · rw [eq]
  · rw [eq]
    rfl

theorem State.logWrite_lock (j : Fin NBUF) :
    ((s.logWrite i).1.buf j).lock = (s.cache.buf j).lock := by
  rcases s.logWrite_eq (i := i) with ⟨eq, -⟩ | eq
  · rw [eq]
  · rw [eq]
    exact s.cache.bpin_lock j

theorem SameData.logWrite : SameData s.cache (s.logWrite i).1 := by
  rcases s.logWrite_eq (i := i) with ⟨eq, -⟩ | eq
  · rw [eq]
    exact ⟨.refl, fun _ => rfl, fun _ => rfl, rfl⟩
  · rw [eq]
    exact SameData.bpin

theorem State.mem_logWrite : (s.cache.buf i).blockno ∈ (s.logWrite i).2 := by
  rcases s.logWrite_eq (i := i) with ⟨eq, mem⟩ | eq
  · rw [eq]
    exact mem
  · rw [eq]
    exact List.mem_append_right _ (List.mem_singleton_self _)

theorem State.mem_logWrite_other (other : b ≠ (s.cache.buf i).blockno) :
    b ∈ (s.logWrite i).2 ↔ b ∈ s.lh := by
  rcases s.logWrite_eq (i := i) with ⟨eq, -⟩ | eq
  · rw [eq]
  · rw [eq]
    simp [other]

/-- **Only the holder of a buffer changes its block**, and hands it on up to date. -/
theorem Current.of_holder (copy : Copy) (current : Current dev s array) (keyed : Keyed dev s.cache)
    (counted : Counted dev s) (locks : Locks s) (mem : u ∈ s.sessions)
    (holds : u.stage.holdingsleep = true) (at_ : AtBlock s s' u.buf array array')
    (sessions : ∀ v, v ∈ s'.sessions ↔
      v = { u with stage := .holding copy } ∨ v ∈ s.sessions ∧ v.id ≠ u.id)
    (clean : copy ≠ .modified →
      (s'.cache.buf u.buf).data = array' (s.cache.buf u.buf).blockno)
    (disk : (s.cache.buf u.buf).blockno ∉ s'.lh ∨ copy = .written →
      s'.cache.disk (s.cache.buf u.buf).blockno = array' (s.cache.buf u.buf).blockno) :
    Current dev s' array' := by
  -- the other buffers hold other blocks, and the other sessions work on other buffers
  have apart : ∀ j, (s.cache.buf j).dev = dev → j ≠ u.buf →
      (s.cache.buf j).blockno ≠ (s.cache.buf u.buf).blockno := by
    intro j here other same
    exact other (keyed.unique j u.buf here (counted.inUse u mem) same)
  have away : ∀ v ∈ s.sessions, v.id ≠ u.id → v.stage.isHolding = true → v.buf ≠ u.buf := by
    intro v memV other holding same
    have both := locks.only memV mem same (Stage.holdingsleep_of_isHolding holding) holds
    exact other (congrArg Session.id both)
  refine ⟨?_, ?_, ?_, ?_, ?_⟩
  · intro b memB
    by_cases here : b = (s.cache.buf u.buf).blockno
    · refine ⟨u.buf, ?_, ?_, at_.valid⟩
      · rw [at_.keys.dev]
        exact counted.inUse u mem
      · rw [at_.keys.blockno, here]
    obtain ⟨j, dev, block, valid⟩ := current.logged b ((at_.blocks b here).2.2.mp memB)
    have other : j ≠ u.buf := by
      rintro rfl
      exact here block.symm
    exact ⟨j, by rw [at_.keys.dev, at_.keys.blockno, (at_.others j other).1]
                 exact ⟨dev, block, valid⟩⟩
  · intro v memV holding
    rcases (sessions v).mp memV with rfl | ⟨memV, other⟩
    · exact at_.valid
    · rw [(at_.others _ (away v memV other holding)).1]
      exact current.valid v memV holding
  · intro j here valid unmodified
    rw [at_.keys.blockno]
    by_cases same : j = u.buf
    · subst same
      refine clean fun dirty => ?_
      exact unmodified _ ((sessions _).mpr (.inl rfl)) rfl (by rw [dirty])
    rw [at_.keys.dev] at here
    obtain ⟨valid', data⟩ := at_.others j same
    rw [valid'] at valid
    rw [data, (at_.blocks _ (apart j here same)).2.1]
    refine current.clean j here valid fun v memV on => ?_
    refine unmodified v ((sessions v).mpr (.inr ⟨memV, fun id => ?_⟩)) on
    rw [locks.inj memV mem id] at on
    exact same on.symm
  · intro b out
    by_cases here : b = (s.cache.buf u.buf).blockno
    · subst here
      exact disk (.inl out)
    · obtain ⟨disk', array', lh⟩ := at_.blocks b here
      rw [disk', array']
      exact current.disk b fun memB => out (lh.mpr memB)
  · intro v memV written
    rw [at_.keys.blockno]
    rcases (sessions v).mp memV with rfl | ⟨memV, other⟩
    · cases written
      exact disk (.inr rfl)
    · have off := away v memV other (by rw [written]; rfl)
      obtain ⟨disk', array', -⟩ := at_.blocks _ (apart _ (counted.inUse v memV) off)
      rw [disk', array']
      exact current.written v memV written

/-- A recycled buffer is not valid, so that nothing is claimed of its data. -/
theorem Current.recycle (current : Current dev s array) (counted : Counted dev s)
    (zero : (s.cache.buf i).refcnt = 0) :
    Current dev (s.enter (s.cache.assign i fun buf =>
      { buf with dev := dev, blockno := b, valid := false, refcnt := 1 }) i) array := by
  obtain ⟨unused, -, unlogged⟩ := counted.free zero
  have away : ∀ v ∈ s.sessions, v.buf ≠ i := fun v memV same =>
    unused (same ▸ List.mem_map_of_mem memV)
  refine ⟨?_, ?_, ?_, current.disk, ?_⟩
  · intro b' memB
    obtain ⟨j, here, block, valid⟩ := current.logged b' memB
    have other : j ≠ i := by
      rintro rfl
      rw [State.logPin, if_pos ⟨here, block ▸ memB⟩] at unlogged
      cases unlogged
    refine ⟨j, ?_⟩
    rw [enter_cache, Cache.assign_other _ other]
    exact ⟨here, block, valid⟩
  · intro v memV holding
    rcases List.mem_cons.mp memV with rfl | memV
    · cases holding
    · rw [enter_cache, Cache.assign_other _ (away v memV)]
      exact current.valid v memV holding
  · intro j here valid clean
    by_cases at_ : j = i
    · rw [at_, enter_cache, Cache.assign_self] at valid
      cases valid
    · rw [enter_cache, Cache.assign_other _ at_] at here valid ⊢
      exact current.clean j here valid fun v memV => clean v (List.mem_cons_of_mem _ memV)
  · intro v memV written
    rcases List.mem_cons.mp memV with rfl | memV
    · cases written
    · rw [enter_cache, Cache.assign_other _ (away v memV)]
      exact current.written v memV written

section

variable (inv : Coherent dev s array)

include inv

/-- A logged block is in the cache. -/
theorem Coherent.not_logged (missing : s.cache.cached dev b = none) :
    b ∉ s.lh := by
  intro mem
  obtain ⟨i, here, block, -⟩ := inv.current.logged b mem
  exact inv.keyed.cached_none missing i here block

theorem Coherent.bget (found : s.cache.bget dev b = some (c, i)) :
    Coherent dev (s.enter c i) array := by
  refine ⟨inv.keyed.bget found, inv.counted.bget found inv.not_logged, ?_, ?_⟩
  · rcases Cache.bget_cases found with ⟨-, rfl⟩ | ⟨-, -, rfl⟩
    · exact inv.locks.enter (assign_same _ Buf.lock rfl)
    · exact inv.locks.enter (assign_same _ Buf.lock rfl)
  rcases Cache.bget_cases found with ⟨-, rfl⟩ | ⟨-, zero, rfl⟩
  · have same : SameData s.cache (s.cache.bpin i) := .bpin
    refine inv.current.of_same same rfl ?_ ?_
    · intro v mem holding
      rcases List.mem_cons.mp mem with rfl | mem
      · cases holding
      · exact mem
    · intro v mem _
      exact List.mem_cons_of_mem _ mem
  · exact inv.current.recycle inv.counted zero

/-- A session that changes no data takes its buffer's lock or gives it up. -/
theorem Coherent.of_lock (mem : u ∈ s.sessions)
    (same : SameData s.cache (s.cache.assign u.buf f))
    (refcnt : (f (s.cache.buf u.buf)).refcnt = (s.cache.buf u.buf).refcnt)
    (locks : Locks (s.move (s.cache.assign u.buf f) u.id stage))
    (clean : u.stage ≠ .holding .modified) (out : stage.isHolding = false) :
    Coherent dev (s.move (s.cache.assign u.buf f) u.id stage) array := by
  refine ⟨inv.keyed.of_same same.toSameKeys rfl, ?_, locks, ?_⟩
  · exact inv.counted.of_same same.toSameKeys (assign_same _ Buf.refcnt refcnt)
      (move_held ..) rfl rfl
  refine inv.current.of_same same rfl ?_ ?_
  · intro v memV holding
    rcases (inv.locks.mem_move mem).mp memV with rfl | ⟨memV, -⟩
    · rw [out] at holding
      cases holding
    · exact memV
  · intro v memV dirty
    refine (inv.locks.mem_move mem).mpr (.inr ⟨memV, fun same => clean ?_⟩)
    rw [← inv.locks.inj memV mem same, dirty]

theorem Coherent.acquiresleep (mem : u ∈ s.sessions)
    (waits : u.stage = .waiting) (free : (s.cache.buf u.buf).lock = none) :
    Coherent dev (s.move (s.cache.acquiresleep u.buf u.id) u.id .locked) array := by
  refine inv.of_lock mem .acquiresleep rfl (inv.locks.acquiresleep mem waits free) ?_ rfl
  rw [waits]
  rintro ⟨⟩

theorem Coherent.releasesleep (mem : u ∈ s.sessions)
    (handed : u.stage.handedOn = true) :
    Coherent dev (s.move (s.cache.releasesleep u.buf) u.id .unlocked) array := by
  have holds := Stage.holdingsleep_of_isHolding (Stage.isHolding_of_handedOn handed)
  refine inv.of_lock mem .releasesleep rfl (inv.locks.releasesleep mem holds) ?_ rfl
  intro dirty
  rw [dirty] at handed
  cases handed

theorem Coherent.brelse (mem : u ∈ s.sessions)
    (gone : u.stage = .unlocked) : Coherent dev (s.leave (s.cache.brelse u.buf) u.id) array := by
  refine ⟨inv.keyed.brelse u.buf, inv.counted.brelse inv.locks mem, ?_, ?_⟩
  · exact inv.locks.leave mem gone (brelse_same Buf.lock rfl)
  refine inv.current.of_same ⟨.brelse, brelse_same Buf.valid rfl,
    brelse_same Buf.data rfl, Cache.brelse_disk⟩ rfl ?_ ?_
  · intro v memV _
    exact List.mem_of_mem_filter memV
  intro v memV dirty
  refine List.mem_filter.mpr ⟨memV, ?_⟩
  have other : v.id ≠ u.id := by
    intro same
    rw [inv.locks.inj memV mem same, gone] at dirty
    cases dirty
  simpa using other

/-- A change to a count and the pins it stands for. -/
theorem Coherent.of_pins
    (same : SameData s.cache (s.cache.assign i f))
    (lock : (f (s.cache.buf i)).lock = (s.cache.buf i).lock)
    (counted : Counted dev { s with cache := s.cache.assign i f, pins := pins }) :
    Coherent dev { s with cache := s.cache.assign i f, pins := pins } array := by
  refine ⟨inv.keyed.of_same same.toSameKeys rfl, counted, ?_, ?_⟩
  · exact inv.locks.of_same rfl rfl (assign_same _ Buf.lock lock)
  · exact inv.current.of_same same rfl (fun _ memV _ => memV) (fun _ memV _ => memV)

/-- The rule for the holder of a buffer, who may change its data and its block. -/
theorem Coherent.of_holder (mem : u ∈ s.sessions)
    (holds : u.stage.holdingsleep = true)
    (links : c.links = s.cache.links) (lock : ∀ i, (c.buf i).lock = (s.cache.buf i).lock)
    (counted : Counted dev { s.move c u.id (.holding copy) with lh := lh })
    (at_ : AtBlock s { s.move c u.id (.holding copy) with lh := lh } u.buf array array')
    (clean : copy ≠ .modified → (c.buf u.buf).data = array' (s.cache.buf u.buf).blockno)
    (disk : (s.cache.buf u.buf).blockno ∉ lh ∨ copy = .written →
      c.disk (s.cache.buf u.buf).blockno = array' (s.cache.buf u.buf).blockno) :
    Coherent dev { s.move c u.id (.holding copy) with lh := lh } array' := by
  have moved : Locks (s.move c u.id (.holding copy)) := inv.locks.of_move mem lock holds.symm
  refine ⟨inv.keyed.of_same at_.keys links, counted, moved.of_same rfl rfl fun _ => rfl, ?_⟩
  have sessions : ∀ v, v ∈ (s.move c u.id (.holding copy)).sessions ↔
      v = { u with stage := .holding copy } ∨ v ∈ s.sessions ∧ v.id ≠ u.id :=
    fun v => inv.locks.mem_move mem
  exact inv.current.of_holder copy inv.keyed inv.counted inv.locks mem holds at_ sessions clean disk

/-- A block in the log has a valid buffer, and there is no other buffer for it. -/
theorem Coherent.disk_of_invalid (here : (s.cache.buf i).dev = dev)
    (invalid : ¬ (s.cache.buf i).valid = true) :
    s.cache.disk (s.cache.buf i).blockno = array (s.cache.buf i).blockno := by
  apply inv.current.disk
  intro logged
  obtain ⟨j, dev, block, valid⟩ := inv.current.logged _ logged
  rw [inv.keyed.unique j i dev here block] at valid
  exact invalid valid

/-- **`bread` gives what was stored last.** -/
theorem Coherent.read_data (mem : u ∈ s.sessions)
    (locked : u.stage = .locked) :
    ((s.cache.read u.buf).buf u.buf).data = array (s.cache.buf u.buf).blockno := by
  have here := inv.counted.inUse u mem
  unfold Cache.read
  split
  · next valid =>
    refine inv.current.clean u.buf here valid fun v memV same dirty => ?_
    have only := inv.locks.only memV mem same (by rw [dirty]; rfl) (by rw [locked]; rfl)
    rw [only, locked] at dirty
    cases dirty
  · next invalid =>
    rw [Cache.assign_self]
    exact inv.disk_of_invalid here invalid

end

theorem Cache.read_other (other : j ≠ i) : (c.read i).buf j = c.buf j := by
  unfold read
  split
  · rfl
  · exact assign_other c other _

theorem Cache.read_same {β : Type} (g : Buf → β)
    (same : ∀ buf data, g { buf with data := data, valid := true } = g buf) (j : Fin NBUF) :
    g ((c.read i).buf j) = g (c.buf j) := by
  unfold read
  split
  · rfl
  · exact c.assign_same g (same _ _) j

theorem Cache.read_valid : ((c.read i).buf i).valid = true := by
  unfold read
  split
  · next valid => exact valid
  · rw [assign_self]

section

variable (inv : Coherent dev s array)

include inv

theorem Coherent.bread (mem : u ∈ s.sessions)
    (locked : u.stage = .locked) :
    Coherent dev (s.move (s.cache.read u.buf) u.id (.holding .same)) array := by
  have links : (s.cache.read u.buf).links = s.cache.links := by unfold Cache.read; split <;> rfl
  have disk : (s.cache.read u.buf).disk = s.cache.disk := by unfold Cache.read; split <;> rfl
  refine inv.of_holder (c := s.cache.read u.buf) mem (by rw [locked]; rfl) links
    (Cache.read_same Buf.lock fun _ _ => rfl) ?_ ⟨.read, ?_, ?_, Cache.read_valid⟩ ?_ ?_
  · exact inv.counted.of_same .read (Cache.read_same Buf.refcnt fun _ _ => rfl)
      (move_held ..) rfl rfl
  · intro j other
    change ((s.cache.read u.buf).buf j).valid = _ ∧ ((s.cache.read u.buf).buf j).data = _
    rw [Cache.read_other other]
    exact ⟨rfl, rfl⟩
  · intro b _
    exact ⟨congrFun disk b, rfl, Iff.rfl⟩
  · intro _
    exact inv.read_data mem locked
  · rintro (out | ⟨⟨⟩⟩)
    rw [disk]
    exact inv.current.disk _ out

theorem Coherent.modify (mem : u ∈ s.sessions)
    (holding : u.stage.isHolding = true) :
    Coherent dev (s.move (s.cache.fill u.buf data) u.id (.holding .modified)) array := by
  have keys : SameKeys s.cache (s.cache.fill u.buf data) := .fill
  have valid : ∀ i, ((s.cache.fill u.buf data).buf i).valid = (s.cache.buf i).valid :=
    assign_same _ Buf.valid rfl
  have refcnt : ∀ i, ((s.cache.fill u.buf data).buf i).refcnt = (s.cache.buf i).refcnt :=
    assign_same _ Buf.refcnt rfl
  have lock : ∀ i, ((s.cache.fill u.buf data).buf i).lock = (s.cache.buf i).lock :=
    assign_same _ Buf.lock rfl
  refine inv.of_holder (c := s.cache.fill u.buf data) mem
    (Stage.holdingsleep_of_isHolding holding) rfl lock ?_ ⟨keys, ?_, ?_, ?_⟩ ?_ ?_
  · exact inv.counted.of_same keys refcnt (move_held ..) rfl rfl
  · intro j other
    exact ⟨valid j, congrArg Buf.data (update_of_ne other ..)⟩
  · intro b _
    exact ⟨rfl, rfl, Iff.rfl⟩
  · exact (valid u.buf).trans (inv.current.valid u mem holding)
  · intro clean
    exact absurd rfl clean
  · rintro (out | ⟨⟨⟩⟩)
    exact inv.current.disk _ out

theorem Coherent.bwrite (mem : u ∈ s.sessions)
    (holding : u.stage.isHolding = true) :
    Coherent dev (s.move (s.cache.bwrite u.buf) u.id (.holding .written))
      (update array (s.cache.buf u.buf).blockno (s.cache.buf u.buf).data) := by
  have keys : SameKeys s.cache (s.cache.bwrite u.buf) := ⟨fun _ => rfl, fun _ => rfl⟩
  refine inv.of_holder (c := s.cache.bwrite u.buf) mem (Stage.holdingsleep_of_isHolding holding)
    rfl (fun _ => rfl) ?_ ⟨keys, ?_, ?_, ?_⟩ ?_ ?_
  · exact inv.counted.of_same keys (fun _ => rfl) (move_held ..) rfl rfl
  · intro j _
    exact ⟨rfl, rfl⟩
  · intro b other
    exact ⟨update_of_ne other .., update_of_ne other .., Iff.rfl⟩
  · exact inv.current.valid u mem holding
  · intro _
    rw [update_self]
    rfl
  · intro _
    rw [update_self]
    exact update_self ..

theorem Coherent.logWrite (mem : u ∈ s.sessions)
    (holding : u.stage.isHolding = true) :
    Coherent dev { s.move (s.logWrite u.buf).1 u.id (.holding .same) with
      lh := (s.logWrite u.buf).2 }
      (update array (s.cache.buf u.buf).blockno (s.cache.buf u.buf).data) := by
  have same : SameData s.cache (s.logWrite u.buf).1 := .logWrite
  refine inv.of_holder (c := (s.logWrite u.buf).1) mem
    (Stage.holdingsleep_of_isHolding holding) ?_ ?_ ?_ ⟨same.toSameKeys, ?_, ?_, ?_⟩ ?_ ?_
  · exact State.logWrite_links
  · exact State.logWrite_lock
  · exact inv.counted.logWrite inv.keyed (inv.counted.inUse u mem)
  · intro j _
    exact ⟨same.valid j, same.data j⟩
  · intro b other
    exact ⟨congrFun same.disk b, update_of_ne other .., State.mem_logWrite_other other⟩
  · exact (same.valid u.buf).trans (inv.current.valid u mem holding)
  · intro _
    rw [update_self]
    exact same.data u.buf
  · rintro (out | ⟨⟨⟩⟩)
    exact absurd State.mem_logWrite out

/-- A logged block that has been written home can leave the log. -/
theorem Coherent.installed (mem : u ∈ s.sessions)
    (written : u.stage = .holding .written) (logged : (s.cache.buf u.buf).blockno ∈ s.lh) :
    Coherent dev { s with
      cache := s.cache.bunpin u.buf, lh := s.lh.erase (s.cache.buf u.buf).blockno } array := by
  have same : SameData s.cache (s.cache.bunpin u.buf) := .bunpin
  have lock : ∀ i, ((s.cache.bunpin u.buf).buf i).lock = (s.cache.buf i).lock :=
    assign_same _ Buf.lock rfl
  refine ⟨inv.keyed.of_same same.toSameKeys rfl, ?_, ?_, ?_⟩
  · exact inv.counted.installed inv.keyed (inv.counted.inUse u mem) logged
  · exact inv.locks.of_same rfl rfl lock
  refine inv.current.of_holder .written inv.keyed inv.counted inv.locks mem
    (by rw [written]; rfl) ⟨same.toSameKeys, ?_, ?_, ?_⟩ ?_ ?_ ?_
  · intro j _
    exact ⟨same.valid j, same.data j⟩
  · intro b other
    exact ⟨rfl, rfl, List.mem_erase_of_ne other⟩
  · exact (same.valid u.buf).trans (inv.current.valid u mem (by rw [written]; rfl))
  · intro v
    rw [← written]
    refine ⟨fun memV => ?_, ?_⟩
    · by_cases id : v.id = u.id
      · exact .inl (inv.locks.inj memV mem id)
      · exact .inr ⟨memV, id⟩
    · rintro (rfl | ⟨memV, -⟩)
      · exact mem
      · exact memV
  · intro _
    rw [same.data]
    refine inv.current.clean u.buf (inv.counted.inUse u mem)
      (inv.current.valid u mem (by rw [written]; rfl)) fun v memV on dirty => ?_
    have only := inv.locks.only memV mem on (by rw [dirty]; rfl) (by rw [written]; rfl)
    rw [only, written] at dirty
    cases dirty
  · intro _
    exact inv.current.written u mem written

end

/-- The cache after `binit`: no buffer is for a block of the device. -/
theorem Coherent.start (nonzero : dev ≠ 0) (disk : Nat → Block) :
    Coherent dev { cache := binit disk } disk := by
  have none : ∀ i, ((binit disk).buf i).dev ≠ dev := fun _ => nonzero.symm
  refine ⟨⟨?_, fun _ => .inl rfl, fun i _ here => absurd here (none i)⟩, ?_, ?_, ?_⟩
  · exact ⟨(List.finRange NBUF).reverse, List.reverse_perm _,
      Links.ring_of_pushes _ (List.nodup_finRange NBUF)⟩
  · refine ⟨by rintro _ ⟨⟩, List.nodup_nil, fun i => ?_⟩
    rw [State.logPin, if_neg (by rintro ⟨_, ⟨⟩⟩)]
    rfl
  · exact ⟨List.nodup_nil, by rintro _ ⟨⟩, fun i t => ⟨by rintro ⟨⟩, by rintro ⟨_, ⟨⟩, _⟩⟩⟩
  · exact ⟨by rintro _ ⟨⟩, by rintro _ ⟨⟩, fun i here => absurd here (none i), fun _ _ => rfl,
      by rintro _ ⟨⟩⟩

/-- **Every step keeps the invariant**, with the array of what was stored. -/
theorem Coherent.step (inv : Coherent dev s array) (step : Step dev s a effect s') :
    Coherent dev s' (latest array effect) := by
  cases step with
  | bget found => exact inv.bget found
  | acquiresleep at_ free =>
    obtain ⟨mem, rfl, stage⟩ := session_spec at_
    exact inv.acquiresleep mem (of_decide_eq_true stage) free
  | bread at_ =>
    obtain ⟨mem, rfl, stage⟩ := session_spec at_
    exact inv.bread mem (of_decide_eq_true stage)
  | modify at_ =>
    obtain ⟨mem, rfl, stage⟩ := session_spec at_
    exact inv.modify mem stage
  | bwrite at_ =>
    obtain ⟨mem, rfl, stage⟩ := session_spec at_
    exact inv.bwrite mem stage
  | logWrite at_ =>
    obtain ⟨mem, rfl, stage⟩ := session_spec at_
    exact inv.logWrite mem stage
  | releasesleep at_ =>
    obtain ⟨mem, rfl, stage⟩ := session_spec at_
    exact inv.releasesleep mem stage
  | brelse at_ =>
    obtain ⟨mem, rfl, stage⟩ := session_spec at_
    exact inv.brelse mem (of_decide_eq_true stage)
  | bpin at_ =>
    refine inv.of_pins (.assign rfl rfl rfl rfl) rfl (inv.counted.pin (.assign rfl rfl) ?_)
    dsimp only
    omega
  | bunpin pinned =>
    refine inv.of_pins (.assign rfl rfl rfl rfl) rfl (inv.counted.pin (.assign rfl rfl) ?_)
    have total := inv.counted.refs ‹_›
    dsimp only
    omega
  | installed at_ logged =>
    obtain ⟨mem, rfl, stage⟩ := session_spec at_
    exact inv.installed mem (of_decide_eq_true stage) logged

/-- A buffer with references keeps its block. -/
theorem Step.kept (step : Step dev s a effect s') (used : 0 < (s.cache.buf i).refcnt) :
    (s'.cache.buf i).dev = (s.cache.buf i).dev ∧
      (s'.cache.buf i).blockno = (s.cache.buf i).blockno := by
  have same : ∀ {c}, SameKeys s.cache c → (c.buf i).dev = (s.cache.buf i).dev ∧
      (c.buf i).blockno = (s.cache.buf i).blockno := fun keys => ⟨keys.dev i, keys.blockno i⟩
  cases step with
  | bget found =>
    rcases Cache.bget_cases found with ⟨-, rfl⟩ | ⟨-, zero, rfl⟩
    · exact same .bpin
    · rw [enter_cache, Cache.assign_other]
      · exact ⟨rfl, rfl⟩
      · rintro rfl
        exact Nat.ne_of_gt used zero
  | acquiresleep => exact same SameData.acquiresleep.toSameKeys
  | bread => exact same .read
  | modify => exact same .fill
  | bwrite => exact ⟨rfl, rfl⟩
  | logWrite => exact same .logWrite
  | releasesleep => exact same SameData.releasesleep.toSameKeys
  | brelse => exact same .brelse
  | bpin => exact same .bpin
  | bunpin | installed => exact same .bunpin

/-! ## The blocks that the sessions ask for -/

/-- Each session has a buffer of the block that its `bread` was called for. -/
def Asked (s : State) (asked : Nat → Nat) : Prop :=
  ∀ u ∈ s.sessions, (s.cache.buf u.buf).blockno = asked u.id

theorem Cache.bget_blockno (found : c.bget dev b = some (c', i)) : (c'.buf i).blockno = b := by
  rcases bget_cases found with ⟨hit, rfl⟩ | ⟨-, -, rfl⟩
  · rw [SameKeys.bpin.blockno]
    exact (cached_some hit).2
  · rw [assign_self]

/-- A session was there before the step, with the same buffer, or is new in a `bget`. -/
theorem Step.session (step : Step dev s a effect s') (mem : u ∈ s'.sessions) :
    (∃ v ∈ s.sessions, v.id = u.id ∧ v.buf = u.buf) ∨
      ∃ b, a = .bget b ∧ u.id = s.nextId ∧ (s'.cache.buf u.buf).blockno = b := by
  have moved : ∀ {t stage}, u ∈ (s.move s.cache t stage).sessions →
      ∃ v ∈ s.sessions, v.id = u.id ∧ v.buf = u.buf := by
    intro t stage mem
    obtain ⟨v, memV, rfl⟩ := List.mem_map.mp mem
    refine ⟨v, memV, ?_⟩
    split <;> exact ⟨rfl, rfl⟩
  cases step with
  | bget found =>
    rcases List.mem_cons.mp mem with rfl | mem
    · exact .inr ⟨_, rfl, rfl, Cache.bget_blockno found⟩
    · exact .inl ⟨u, mem, rfl, rfl⟩
  | acquiresleep | bread | modify | bwrite | logWrite | releasesleep => exact .inl (moved mem)
  | brelse => exact .inl ⟨u, List.mem_of_mem_filter mem, rfl, rfl⟩
  | bpin | bunpin | installed => exact .inl ⟨u, mem, rfl, rfl⟩

theorem Counted.used (counted : Counted dev s) (mem : u ∈ s.sessions) :
    0 < (s.cache.buf u.buf).refcnt := by
  have one : 0 < s.held.count u.buf := List.count_pos_iff.mpr (List.mem_map_of_mem mem)
  have total := counted.refs u.buf
  omega

theorem asking_of_lt (old : t < d) (a : Action) : asking asked d a t = asked t := by
  unfold asking
  split
  · exact update_of_ne (Nat.ne_of_lt old) ..
  · rfl

/-- A session stays with the block that it asked for. -/
theorem Asked.step (asks : Asked s asked) (inv : Coherent dev s array)
    (step : Step dev s a effect s') : Asked s' (asking asked s.nextId a) := by
  intro u mem
  rcases step.session mem with ⟨v, memV, id, buf⟩ | ⟨b, rfl, id, block⟩
  · rw [← buf, ← id, (step.kept (inv.counted.used memV)).2, asking_of_lt (inv.locks.born v memV)]
    exact asks v memV
  · rw [block, id]
    exact (update_self s.nextId b asked).symm

/-- The invariant in every reachable state, with its history. -/
theorem Coherent.reachable (nonzero : dev ≠ 0) (reach : (observed dev disk).Reachable x) :
    Coherent dev x.1 x.2.array ∧ Asked x.1 x.2.asked := by
  apply reach.invariant (P := fun x => Coherent dev x.1 x.2.array ∧ Asked x.1 x.2.asked)
  · rintro ⟨s, h⟩ ⟨start, same⟩
    rw [show s = _ from start, same]
    exact ⟨.start nonzero disk, by rintro _ ⟨⟩⟩
  · rintro ⟨s, h⟩ ⟨a, effect⟩ ⟨s', h'⟩ ⟨inv, asks⟩ ⟨step, rfl⟩
    exact ⟨inv.step (.of_exec step), asks.step inv (.of_exec step)⟩

/-- A valid buffer that nobody is changing has the array's content, and so has the disk where
there is no valid buffer. -/
theorem Coherent.content (inv : Coherent dev s array) (asks : Asked s asked)
    (quiet : ∀ u ∈ s.sessions, asked u.id = b → u.stage ≠ .holding .modified) :
    (s.cache.io dev).content b = array b := by
  unfold Log.Io.content Cache.io
  cases found : s.cache.cached dev b with
  | none => simp [found, inv.current.disk b (inv.not_logged found)]
  | some i =>
    obtain ⟨here, rfl⟩ := Cache.cached_some found
    by_cases valid : (s.cache.buf i).valid = true
    · have clean := inv.current.clean i here valid fun u mem on =>
        quiet u mem (by rw [← asks u mem, on])
      simp [found, Option.filter, valid, clean]
    · simp [found, Option.filter, valid, inv.disk_of_invalid here valid]

theorem cache_refines_array (dev : Nat) (nonzero : dev ≠ 0) (disk : Nat → Block)
    (x : State × History) (reach : (observed dev disk).Reachable x) :
    Refines dev x.1 x.2 := by
  obtain ⟨inv, asks⟩ := Coherent.reachable nonzero reach
  refine ⟨?_, inv.keyed.ring, ?_, ?_, ?_, fun b => inv.content asks⟩
  · intro i j nonzero dev block
    have here := (inv.keyed.devs i).resolve_left nonzero
    exact inv.keyed.unique i j here (dev ▸ here) block
  · obtain ⟨order, perm, ring⟩ := inv.keyed.ring
    have all : ∀ i, i ∈ order := fun i => perm.mem_iff.mpr (List.mem_finRange i)
    intro p
    exact ⟨ring.prev_next all p, ring.next_prev all p⟩
  · intro a s' effect i step
    exact (Step.of_exec step).kept
  intro a s' b data step
  cases Step.of_exec step with
  | bread at_ =>
    obtain ⟨mem, rfl, stage⟩ := session_spec at_
    rw [SameKeys.read.blockno]
    refine ⟨inv.read_data mem (of_decide_eq_true stage), _,
      (inv.locks.mem_move mem).mpr (.inl rfl), rfl, (asks _ mem).symm, ?_, ?_, rfl⟩
    · exact (SameKeys.read.dev _).trans (inv.counted.inUse ‹_› mem)
    · exact SameKeys.read.blockno _

/-- One session reads block 5, changes it and writes it, and another one is about to read it. -/
def stored : List Action :=
  [.bget 5, .acquiresleep 0, .bread 0, .modify 0 fun _ => 1, .bwrite 0, .releasesleep 0, .bget 5,
    .acquiresleep 1]

theorem cache_refines_array_stored :
    ∃ x, (observed 1 fun _ _ => 0).Reachable x ∧ (x.2.array 5).byte 0 = 1 ∧ x.2.asked 1 = 5 ∧
      (exec 1 x.1 (.bread 1)).isSome ∧ Refines 1 x.1 x.2 := by
  obtain ⟨x, reach, one, asked, read⟩ : ∃ x, (observed 1 fun _ _ => 0).Reachable x ∧
      (x.2.array 5).byte 0 = 1 ∧ x.2.asked 1 = 5 ∧ (exec 1 x.1 (.bread 1)).isSome :=
    Lts.exists_of_replay (fun _ _ => True) (by rfl) stored (by decide +kernel)
  exact ⟨x, reach, one, asked, read, cache_refines_array 1 (by decide) _ x reach⟩

end Xv6.Bio
