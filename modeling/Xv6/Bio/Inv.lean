import Xv6.Bio.Basic
import Mathlib.Data.List.Count

/-!
# The invariant of the buffer cache

The invariant has four parts: which blocks the buffers hold and how they are linked (`Keyed`),
what their reference counts count (`Counted`), who holds their locks (`Locks`), and how the data
in the buffers and on the disk relates to the array of blocks (`Current`). A buffer that is valid
has the array's content unless its holder is changing it, and so has the disk wherever the log
has no pin. This module has the first two parts.
-/

namespace Xv6.Bio

open Xv6.Log (Block LOGBLOCKS)
open Function
open List (find?_some map_cons mem_finRange mem_map mem_map_of_mem)

/-- Distinct buffers hold distinct blocks, and all are linked. -/
structure Keyed (dev : Nat) (c : Cache) : Prop where
  ring : ∃ order : List (Fin NBUF), order.Perm (List.finRange NBUF) ∧ c.links.Ring order
  devs : ∀ i, (c.buf i).dev = 0 ∨ (c.buf i).dev = dev
  unique : ∀ i j, (c.buf i).dev = dev → (c.buf j).dev = dev →
    (c.buf i).blockno = (c.buf j).blockno → i = j

/-- The reference counts count sessions and pins. -/
structure Counted (dev : Nat) (s : State) : Prop where
  inUse : ∀ u ∈ s.sessions, (s.cache.buf u.buf).dev = dev
  distinct : s.lh.Nodup
  refs : ∀ i, (s.cache.buf i).refcnt =
    s.held.count i + s.pins i + s.logPin dev i

/-- A buffer's sleep-lock is with the session that is at a point where it has it. -/
structure Locks (s : State) : Prop where
  ids : (s.sessions.map (·.id)).Nodup
  born : ∀ u ∈ s.sessions, u.id < s.nextId
  lock : ∀ i t, (s.cache.buf i).lock = some t ↔
    ∃ u ∈ s.sessions, u.id = t ∧ u.buf = i ∧ u.stage.holdingsleep = true

/-- `array` is what was stored last: the buffers and the disk agree with it where they should. -/
structure Current (dev : Nat) (s : State) (array : Nat → Block) : Prop where
  logged : ∀ b ∈ s.lh, ∃ i, (s.cache.buf i).dev = dev ∧ (s.cache.buf i).blockno = b ∧
    (s.cache.buf i).valid = true
  valid : ∀ u ∈ s.sessions, u.stage.isHolding = true → (s.cache.buf u.buf).valid = true
  clean : ∀ i, (s.cache.buf i).dev = dev → (s.cache.buf i).valid = true →
    (∀ u ∈ s.sessions, u.buf = i → u.stage ≠ .holding .modified) →
    (s.cache.buf i).data = array (s.cache.buf i).blockno
  disk : ∀ b, b ∉ s.lh → s.cache.disk b = array b
  written : ∀ u ∈ s.sessions, u.stage = .holding .written →
    s.cache.disk (s.cache.buf u.buf).blockno = array (s.cache.buf u.buf).blockno

/-- **The invariant of the cache.** -/
structure Coherent (dev : Nat) (s : State) (array : Nat → Block) : Prop where
  keyed : Keyed dev s.cache
  counted : Counted dev s
  locks : Locks s
  current : Current dev s array

/-! ## What a step does -/

/-- The steps of `exec`, with the session that each is about. -/
inductive Step (dev : Nat) (s : State) : Action → Option Effect → State → Prop
  | bget {b c i} (found : s.cache.bget dev b = some (c, i)) :
      Step dev s (.bget b) none (s.enter c i)
  | acquiresleep {t u} (at_ : s.session t (· = .waiting) = some u)
      (free : (s.cache.buf u.buf).lock = none) :
      Step dev s (.acquiresleep t) none (s.move (s.cache.acquiresleep u.buf t) t .locked)
  | bread {t u} (at_ : s.session t (· = .locked) = some u) :
      Step dev s (.bread t)
        (some (.returned ((s.cache.read u.buf).buf u.buf).blockno
          ((s.cache.read u.buf).buf u.buf).data))
        (s.move (s.cache.read u.buf) t (.holding .same))
  | modify {t u data} (at_ : s.session t Stage.isHolding = some u) :
      Step dev s (.modify t data) none (s.move (s.cache.fill u.buf data) t (.holding .modified))
  | bwrite {t u} (at_ : s.session t Stage.isHolding = some u) :
      Step dev s (.bwrite t)
        (some (.stored (s.cache.buf u.buf).blockno (s.cache.buf u.buf).data))
        (s.move (s.cache.bwrite u.buf) t (.holding .written))
  | logWrite {t u} (at_ : s.session t Stage.isHolding = some u) :
      Step dev s (.logWrite t)
        (some (.stored (s.cache.buf u.buf).blockno (s.cache.buf u.buf).data))
        { s.move (s.logWrite u.buf).1 t (.holding .same) with lh := (s.logWrite u.buf).2 }
  | releasesleep {t u} (at_ : s.session t Stage.handedOn = some u) :
      Step dev s (.releasesleep t) none (s.move (s.cache.releasesleep u.buf) t .unlocked)
  | brelse {t u} (at_ : s.session t (· = .unlocked) = some u) :
      Step dev s (.brelse t) none (s.leave (s.cache.brelse u.buf) t)
  | bpin {t u} (at_ : s.session t Stage.isHolding = some u) :
      Step dev s (.bpin t) none { s with
        cache := s.cache.bpin u.buf
        pins := update s.pins u.buf (s.pins u.buf + 1) }
  | bunpin {i} (pinned : 0 < s.pins i) :
      Step dev s (.bunpin i) none { s with
        cache := s.cache.bunpin i, pins := update s.pins i (s.pins i - 1) }
  | installed {t u} (at_ : s.session t (· = .holding .written) = some u)
      (mem : (s.cache.buf u.buf).blockno ∈ s.lh) :
      Step dev s (.installed t) none { s with
        cache := s.cache.bunpin u.buf, lh := s.lh.erase (s.cache.buf u.buf).blockno }

variable {dev d b t : Nat} {c c' : Cache} {s s' : State} {a : Action} {effect : Option Effect}
  {array array' : Nat → Block} {i j : Fin NBUF} {u v : Session} {stage : Stage} {p : Stage → Bool}
  {copy : Copy}

/-- The one place where `exec` is taken apart. -/
theorem Step.of_exec (step : exec dev s a = some (s', effect)) : Step dev s a effect s' := by
  unfold exec at step
  -- an action whose session is not at the right place is no step
  split at step <;> (split at step; rotate_left; · cases step)
  · next found => cases step; exact .bget found
  · next at_ =>
    split at step <;> cases step
    exact .acquiresleep at_ ‹_›
  · next at_ => cases step; exact .bread at_
  · next at_ => cases step; exact .modify at_
  · next at_ => cases step; exact .bwrite at_
  · next at_ =>
    split at step <;> cases step
    exact .logWrite at_
  · next at_ => cases step; exact .releasesleep at_
  · next at_ => cases step; exact .brelse at_
  · next at_ => cases step; exact .bpin at_
  · next pinned => cases step; exact .bunpin pinned
  · next at_ =>
    split at step <;> cases step
    exact .installed at_ ‹_›

/-! ## Sessions -/

theorem State.session_spec (at_ : s.session t p = some u) :
    u ∈ s.sessions ∧ u.id = t ∧ p u.stage = true := by
  refine ⟨List.mem_of_find?_eq_some at_, ?_⟩
  simpa using find?_some at_

theorem Locks.inj (locks : Locks s) (memU : u ∈ s.sessions) (memV : v ∈ s.sessions)
    (same : u.id = v.id) : u = v :=
  List.inj_on_of_nodup_map locks.ids memU memV same

/-- A sleep-lock has one holder. -/
theorem Locks.only (locks : Locks s) (memU : u ∈ s.sessions) (memV : v ∈ s.sessions)
    (same : u.buf = v.buf) (holdsU : u.stage.holdingsleep = true)
    (holdsV : v.stage.holdingsleep = true) : u = v := by
  have ofU := (locks.lock u.buf u.id).mpr ⟨u, memU, rfl, rfl, holdsU⟩
  have ofV := (locks.lock v.buf v.id).mpr ⟨v, memV, rfl, rfl, holdsV⟩
  rw [same, ofV] at ofU
  exact (locks.inj memV memU (Option.some.inj ofU)).symm

theorem Locks.mem_move (locks : Locks s) (memU : u ∈ s.sessions) :
    v ∈ (s.move c u.id stage).sessions ↔
      v = { u with stage := stage } ∨ v ∈ s.sessions ∧ v.id ≠ u.id := by
  unfold State.move
  rw [mem_map]
  constructor
  · rintro ⟨w, memW, rfl⟩
    split
    · next same =>
      rw [locks.inj memW memU same]
      exact .inl rfl
    · next other => exact .inr ⟨memW, other⟩
  · rintro (rfl | ⟨memV, other⟩)
    · exact ⟨u, memU, if_pos rfl⟩
    · exact ⟨v, memV, if_neg other⟩

theorem Stage.holdingsleep_of_isHolding (holding : stage.isHolding = true) :
    stage.holdingsleep = true := by
  cases stage <;> first | rfl | cases holding

theorem Stage.isHolding_of_handedOn (handed : stage.handedOn = true) : stage.isHolding = true := by
  rcases stage with _ | _ | _ | _ <;> first | rfl | cases handed

/-! ## The lookups of `bget` -/

theorem Keyed.mem_next (keyed : Keyed dev c) (i : Fin NBUF) :
    i ∈ Links.walk c.links.next NBUF none := by
  obtain ⟨order, perm, ring⟩ := keyed.ring
  have length : order.length = NBUF := by rw [perm.length_eq, List.length_finRange]
  rw [ring.path.walk (Nat.le_of_eq length)]
  exact perm.mem_iff.mpr (mem_finRange i)

theorem Keyed.mem_prev (keyed : Keyed dev c) (i : Fin NBUF) :
    i ∈ Links.walk c.links.prev NBUF none := by
  obtain ⟨order, perm, ring⟩ := keyed.ring
  have length : order.length = NBUF := by rw [perm.length_eq, List.length_finRange]
  have walk : Links.walk c.links.prev NBUF none = order.reverse :=
    ring.path.reverse.walk (Nat.le_of_eq (by rw [List.length_reverse, length]))
  rw [walk]
  exact List.mem_reverse.mpr (perm.mem_iff.mpr (mem_finRange i))

theorem Cache.cached_some (found : c.cached dev b = some i) :
    (c.buf i).dev = dev ∧ (c.buf i).blockno = b := by
  simpa using find?_some found

/-- A block that the first scan of `bget` misses is in no buffer. -/
theorem Keyed.cached_none (keyed : Keyed dev c) (missing : c.cached dev b = none) (i : Fin NBUF)
    (here : (c.buf i).dev = dev) : (c.buf i).blockno ≠ b := by
  have absent := List.find?_eq_none.mp missing i (keyed.mem_next i)
  simpa [here] using absent

theorem Cache.unused_some (found : c.unused = some i) : (c.buf i).refcnt = 0 := by
  simpa using find?_some found

/-- `bget` finds the block, or it recycles a buffer with no references. -/
theorem Cache.bget_cases (found : c.bget dev b = some (c', i)) :
    (c.cached dev b = some i ∧ c' = c.bpin i) ∨
    (c.cached dev b = none ∧ (c.buf i).refcnt = 0 ∧ c' = c.assign i fun buf =>
      { buf with dev := dev, blockno := b, valid := false, refcnt := 1 }) := by
  unfold bget at found
  split at found
  · next hit =>
    cases found
    exact .inl ⟨hit, rfl⟩
  rename_i missing
  split at found
  · next free =>
    cases found
    exact .inr ⟨missing, unused_some free, rfl⟩
  · cases found

/-! ## Blocks and the list -/

/-- A step that leaves the blocks of the buffers and the list alone. -/
structure SameKeys (c c' : Cache) : Prop where
  dev : ∀ i, (c'.buf i).dev = (c.buf i).dev
  blockno : ∀ i, (c'.buf i).blockno = (c.buf i).blockno

theorem SameKeys.assign (dev : (f (c.buf i)).dev = (c.buf i).dev)
    (blockno : (f (c.buf i)).blockno = (c.buf i).blockno) : SameKeys c (c.assign i f) :=
  ⟨c.assign_same Buf.dev dev, c.assign_same Buf.blockno blockno⟩

theorem SameKeys.refl : SameKeys c c := ⟨fun _ => rfl, fun _ => rfl⟩

theorem SameKeys.read : SameKeys c (c.read i) := by
  unfold Cache.read
  split
  · exact .refl
  · exact .assign rfl rfl

theorem Cache.brelse_other (other : j ≠ i) : (c.brelse i).buf j = c.buf j := by
  unfold brelse
  dsimp only
  split
  · exact update_of_ne other ..
  · exact assign_other c other _

theorem Cache.brelse_self :
    (c.brelse i).buf i = { c.buf i with refcnt := (c.buf i).refcnt - 1 } := by
  unfold brelse
  dsimp only
  split
  · exact update_self ..
  · exact assign_self ..

/-- `brelse` changes nothing of a buffer but its count. -/
theorem Cache.brelse_same {β : Type} (g : Buf → β)
    (same : g { c.buf i with refcnt := (c.buf i).refcnt - 1 } = g (c.buf i)) (j : Fin NBUF) :
    g ((c.brelse i).buf j) = g (c.buf j) := by
  by_cases at_ : j = i
  · rw [at_, brelse_self]
    exact same
  · rw [brelse_other at_]

theorem Cache.brelse_disk : (c.brelse i).disk = c.disk := by
  unfold brelse
  dsimp only
  split <;> rfl

theorem SameKeys.brelse : SameKeys c (c.brelse i) :=
  ⟨Cache.brelse_same Buf.dev rfl, Cache.brelse_same Buf.blockno rfl⟩

theorem SameKeys.bpin : SameKeys c (c.bpin i) := .assign rfl rfl

theorem SameKeys.bunpin : SameKeys c (c.bunpin i) := .assign rfl rfl

theorem SameKeys.logWrite : SameKeys s.cache (s.logWrite i).1 := by
  unfold State.logWrite
  dsimp only
  split
  · exact .refl
  · exact SameKeys.bpin

theorem Keyed.of_same (keyed : Keyed dev c) (keys : SameKeys c c') (links : c'.links = c.links) :
    Keyed dev c' := by
  refine ⟨?_, ?_, ?_⟩
  · rw [links]
    exact keyed.ring
  · intro i
    rw [keys.dev]
    exact keyed.devs i
  · intro i j
    rw [keys.dev, keys.dev, keys.blockno, keys.blockno]
    exact keyed.unique i j

theorem Keyed.brelse (keyed : Keyed dev c) (i : Fin NBUF) : Keyed dev (c.brelse i) := by
  have same : Keyed dev (c.assign i fun buf => { buf with refcnt := buf.refcnt - 1 }) :=
    keyed.of_same (.assign rfl rfl) rfl
  unfold Cache.brelse
  dsimp only
  split
  · obtain ⟨order, perm, ring⟩ := keyed.ring
    have mem : i ∈ order := perm.mem_iff.mpr (mem_finRange i)
    refine ⟨⟨i :: order.erase i, ?_, ring.moveFront mem⟩, same.devs, same.unique⟩
    exact (List.perm_cons_erase mem).symm.trans perm
  · exact same

/-- `bget` never gives a block a second buffer. -/
theorem Keyed.bget (keyed : Keyed dev c) (found : c.bget dev b = some (c', i)) : Keyed dev c' := by
  rcases Cache.bget_cases found with ⟨-, rfl⟩ | ⟨missing, -, rfl⟩
  · exact keyed.of_same (.assign rfl rfl) rfl
  refine ⟨keyed.ring, ?_, ?_⟩
  · intro j
    by_cases at_ : j = i
    · rw [at_, Cache.assign_self]
      exact .inr rfl
    · rw [Cache.assign_other c at_]
      exact keyed.devs j
  · intro j k
    -- the block was in no buffer, so that only buffer `i` has it now
    by_cases atJ : j = i
    · by_cases atK : k = i
      · intros
        rw [atJ, atK]
      · rw [atJ, Cache.assign_self, Cache.assign_other c atK]
        intro _ here same
        exact absurd same.symm (keyed.cached_none missing k here)
    · by_cases atK : k = i
      · rw [atK, Cache.assign_self, Cache.assign_other c atJ]
        intro here _ same
        exact absurd same (keyed.cached_none missing j here)
      · rw [Cache.assign_other c atJ, Cache.assign_other c atK]
        exact keyed.unique j k

/-! ## Reference counts -/

/-- A buffer with no references is in no session and has no pin. -/
theorem Counted.free (counted : Counted dev s) (zero : (s.cache.buf i).refcnt = 0) :
    i ∉ s.held ∧ s.pins i = 0 ∧ s.logPin dev i = 0 := by
  have total := counted.refs i
  refine ⟨?_, by omega, by omega⟩
  rw [← List.count_eq_zero]
  omega

theorem State.logPin_congr (dev : (s'.cache.buf i).dev = (s.cache.buf i).dev)
    (blockno : (s'.cache.buf i).blockno = (s.cache.buf i).blockno)
    (lh : (s.cache.buf i).blockno ∈ s'.lh ↔ (s.cache.buf i).blockno ∈ s.lh) :
    s'.logPin d i = s.logPin d i := by
  simp only [State.logPin, dev, blockno, lh]

theorem Counted.of_same (counted : Counted dev s) (keys : SameKeys s.cache s'.cache)
    (refcnt : ∀ i, (s'.cache.buf i).refcnt = (s.cache.buf i).refcnt) (held : s'.held = s.held)
    (pins : s'.pins = s.pins) (lh : s'.lh = s.lh) : Counted dev s' := by
  refine ⟨?_, ?_, ?_⟩
  · intro u mem
    have used : u.buf ∈ s.held := held ▸ mem_map_of_mem mem
    obtain ⟨v, memV, same⟩ := mem_map.mp used
    rw [keys.dev, ← same]
    exact counted.inUse v memV
  · rw [lh]
    exact counted.distinct
  · intro i
    rw [refcnt, counted.refs, held, pins]
    rw [State.logPin_congr (keys.dev i) (keys.blockno i) (by rw [lh])]

/-- The counts after a change to one buffer and its references. -/
theorem Counted.of_one (counted : Counted dev s)
    (inUse : ∀ u ∈ s'.sessions, u.buf = i ∨ u.buf ∈ s.held)
    (open_ : i ∈ s'.held → (s'.cache.buf i).dev = dev) (distinct : s'.lh.Nodup)
    (others : ∀ j, j ≠ i → s'.cache.buf j = s.cache.buf j ∧
      s'.held.count j = s.held.count j ∧ s'.pins j = s.pins j ∧
      ((s.cache.buf j).dev = dev → ((s.cache.buf j).blockno ∈ s'.lh ↔
        (s.cache.buf j).blockno ∈ s.lh)))
    (here : (s'.cache.buf i).refcnt = s'.held.count i + s'.pins i + s'.logPin dev i) :
    Counted dev s' := by
  refine ⟨?_, distinct, ?_⟩
  · intro u mem
    by_cases at_ : u.buf = i
    · rw [at_]
      exact open_ (at_ ▸ mem_map_of_mem mem)
    · obtain ⟨v, memV, same⟩ := mem_map.mp ((inUse u mem).resolve_left at_)
      rw [(others _ at_).1, ← same]
      exact counted.inUse v memV
  · intro j
    by_cases at_ : j = i
    · rw [at_]
      exact here
    obtain ⟨buf, held, pins, lh⟩ := others j at_
    have pinned : s'.logPin dev j = s.logPin dev j := by
      unfold State.logPin
      rw [buf]
      by_cases mine : (s.cache.buf j).dev = dev
      · simp only [lh mine]
      · simp only [mine, false_and]
    rw [buf, held, pins, pinned]
    exact counted.refs j

theorem Counted.bget (counted : Counted dev s) (found : s.cache.bget dev b = some (c, i))
    (absent : s.cache.cached dev b = none → b ∉ s.lh) : Counted dev (s.enter c i) := by
  have inUse : ∀ u ∈ (s.enter c i).sessions, u.buf = i ∨ u.buf ∈ s.held := by
    intro u mem
    rcases List.mem_cons.mp mem with rfl | mem
    · exact .inl rfl
    · exact .inr (mem_map_of_mem mem)
  have others : ∀ j, j ≠ i → (s.enter c i).held.count j = s.held.count j := by
    intro j other
    rw [State.enter_held, List.count_cons_of_ne other.symm]
  rcases Cache.bget_cases found with ⟨hit, rfl⟩ | ⟨missing, zero, rfl⟩
  · have keys : SameKeys s.cache (s.cache.bpin i) := .bpin
    refine counted.of_one inUse ?_ counted.distinct ?_ ?_
    · intro _
      rw [State.enter_cache, keys.dev]
      exact (Cache.cached_some hit).1
    · intro j other
      exact ⟨update_of_ne other .., others j other, rfl, fun _ => Iff.rfl⟩
    have total := counted.refs i
    have pinned : (s.enter (s.cache.bpin i) i).logPin dev i = s.logPin dev i :=
      State.logPin_congr (keys.dev i) (keys.blockno i) Iff.rfl
    rw [pinned]
    simp only [State.enter_cache, Cache.bpin, Cache.assign_self, State.enter_held,
      List.count_cons_self, State.enter_pins]
    omega
  · obtain ⟨unused, unpinned, -⟩ := counted.free zero
    refine counted.of_one inUse ?_ counted.distinct ?_ ?_
    · intro _
      rw [State.enter_cache, Cache.assign_self]
    · intro j other
      refine ⟨?_, others j other, rfl, fun _ => Iff.rfl⟩
      rw [State.enter_cache, Cache.assign_other _ other]
    · simp [State.logPin, unpinned, absent missing, List.count_eq_zero.mpr unused]

theorem Locks.leave_perm (locks : Locks s) (mem : u ∈ s.sessions) :
    s.sessions.Perm (u :: (s.leave c u.id).sessions) := by
  obtain ⟨l, r, eq⟩ := List.append_of_mem mem
  have ids := locks.ids
  unfold State.leave
  rw [eq] at ids ⊢
  simp only [List.map_append, map_cons, List.nodup_middle, List.nodup_cons, List.mem_append,
    mem_map, not_or, not_exists, not_and] at ids
  have before : l.filter (·.id ≠ u.id) = l :=
    List.filter_eq_self.mpr fun v memV => by simpa using ids.1.1 v memV
  have after : r.filter (·.id ≠ u.id) = r :=
    List.filter_eq_self.mpr fun v memV => by simpa using ids.1.2 v memV
  rw [List.filter_append, before, List.filter_cons_of_neg (by simp), after]
  exact List.perm_middle

theorem Counted.brelse (counted : Counted dev s) (locks : Locks s) (mem : u ∈ s.sessions) :
    Counted dev (s.leave (s.cache.brelse u.buf) u.id) := by
  have perm := (locks.leave_perm (c := s.cache.brelse u.buf) mem).map (·.buf)
  have keys : SameKeys s.cache (s.cache.brelse u.buf) := .brelse
  refine counted.of_one (i := u.buf) ?_ ?_ counted.distinct ?_ ?_
  · intro v memV
    exact .inr (mem_map_of_mem (List.mem_of_mem_filter memV))
  · intro _
    rw [State.leave_cache, keys.dev]
    exact counted.inUse u mem
  · intro j other
    refine ⟨Cache.brelse_other other, ?_, rfl, fun _ => Iff.rfl⟩
    rw [State.held, State.held, perm.count_eq, map_cons, List.count_cons_of_ne other.symm]
  have total := counted.refs u.buf
  have pinned : (s.leave (s.cache.brelse u.buf) u.id).logPin dev u.buf = s.logPin dev u.buf :=
    State.logPin_congr (keys.dev _) (keys.blockno _) Iff.rfl
  rw [State.held, perm.count_eq, map_cons, List.count_cons_self] at total
  rw [pinned, State.leave_cache, Cache.brelse_self, State.leave_pins, State.held]
  dsimp only
  omega

theorem Counted.pin (counted : Counted dev s) (keys : SameKeys s.cache (s.cache.assign i f))
    (refcnt : (f (s.cache.buf i)).refcnt + s.pins i = (s.cache.buf i).refcnt + n) :
    Counted dev { s with cache := s.cache.assign i f, pins := update s.pins i n } := by
  refine counted.of_one (i := i) ?_ ?_ counted.distinct ?_ ?_
  · intro v memV
    exact .inr (mem_map_of_mem memV)
  · intro mem
    obtain ⟨v, memV, rfl⟩ := mem_map.mp mem
    rw [keys.dev]
    exact counted.inUse v memV
  · intro j other
    exact ⟨update_of_ne other .., rfl, update_of_ne other .., fun _ => Iff.rfl⟩
  have total := counted.refs i
  have pinned : State.logPin { s with
      cache := s.cache.assign i f, pins := update s.pins i n } dev i = s.logPin dev i :=
    State.logPin_congr (keys.dev i) (keys.blockno i) Iff.rfl
  change _ = s.held.count i + _ + _
  simp only [Cache.assign_self, update_self]
  omega

/-- `log_write` pins a block that is new in the log. -/
theorem Counted.logWrite (counted : Counted dev s) (keyed : Keyed dev s.cache)
    (inUse : (s.cache.buf i).dev = dev) :
    Counted dev { s.move (s.logWrite i).1 t stage with lh := (s.logWrite i).2 } := by
  unfold State.logWrite
  dsimp only
  split
  · exact counted.of_same .refl (fun _ => rfl) (State.move_held ..) rfl rfl
  rename_i new
  have keys : SameKeys s.cache (s.cache.bpin i) := .bpin
  have moved := s.move_held (s.cache.bpin i) t stage
  refine counted.of_one (i := i) ?_ ?_ ?_ ?_ ?_
  · intro v memV
    exact .inr (moved ▸ mem_map_of_mem memV)
  · intro _
    exact (keys.dev i).trans inUse
  · rw [← List.concat_eq_append]
    exact counted.distinct.concat new
  · intro j other
    refine ⟨update_of_ne other .., congrArg (List.count j) moved, rfl, fun here => ?_⟩
    have apart : (s.cache.buf j).blockno ≠ (s.cache.buf i).blockno := fun same =>
      other (keyed.unique j i here inUse same)
    simp [apart]
  · have total := counted.refs i
    have before : s.logPin dev i = 0 := if_neg fun at_ => new at_.2
    have after : State.logPin { s.move (s.cache.bpin i) t stage with
        lh := s.lh ++ [(s.cache.buf i).blockno] } dev i = 1 := by
      refine if_pos ⟨(keys.dev i).trans inUse, ?_⟩
      simp [keys.blockno]
    rw [after]
    have held : List.count i (State.held { s.move (s.cache.bpin i) t stage with
        lh := s.lh ++ [(s.cache.buf i).blockno] }) = s.held.count i :=
      congrArg (List.count i) moved
    rw [held]
    simp only [State.move_cache, State.move_pins, Cache.bpin, Cache.assign_self]
    omega

/-- The pin is taken back when the block leaves the log. -/
theorem Counted.installed (counted : Counted dev s) (keyed : Keyed dev s.cache)
    (inUse : (s.cache.buf i).dev = dev) (mem : (s.cache.buf i).blockno ∈ s.lh) :
    Counted dev { s with
      cache := s.cache.bunpin i, lh := s.lh.erase (s.cache.buf i).blockno } := by
  have keys : SameKeys s.cache (s.cache.bunpin i) := .bunpin
  refine counted.of_one (i := i) ?_ ?_ (counted.distinct.erase _) ?_ ?_
  · intro v memV
    exact .inr (mem_map_of_mem memV)
  · intro _
    exact (keys.dev i).trans inUse
  · intro j other
    refine ⟨update_of_ne other .., rfl, rfl, fun here => ?_⟩
    apply List.mem_erase_of_ne
    intro same
    exact other (keyed.unique j i here inUse same)
  · have total := counted.refs i
    have before : s.logPin dev i = 1 := if_pos ⟨inUse, mem⟩
    have after : State.logPin { s with
        cache := s.cache.bunpin i, lh := s.lh.erase (s.cache.buf i).blockno } dev i = 0 := by
      refine if_neg fun at_ => ?_
      rw [keys.blockno] at at_
      exact List.Nodup.not_mem_erase counted.distinct at_.2
    rw [after]
    change _ = s.held.count i + _ + _
    simp only [Cache.bunpin, Cache.assign_self]
    omega

end Xv6.Bio
