import Xv6.Log.Recoverable
import Xv6.Log.Transaction

/-!
# Crash atomicity

`crash_atomicity` says what the disk holds after a completed recovery, however
often the machine crashed before, in the middle of a commit or of a recovery.

The disk is `Recoverable` with the committed transactions as its goal in every
state, so a crash keeps the invariant trivially. What the memory has to satisfy
for the next disk write to keep it is said phase by phase (`Memory`).
-/

namespace Xv6.Log

variable {start : Nat} {disk goal : Nat → Block}

/-! ## The memory, phase by phase -/

/-- The cache agrees with the disk but for the blocks of `dirty`, which are pinned. -/
structure Synced (io : Io) (dirty : List Nat) : Prop where
  clean : ∀ b, b ∉ dirty → io.content b = io.disk b
  pinned : ∀ b ∈ dirty, 1 ≤ io.refs b

/-- The open transaction: `log.lh` lists its blocks, and the cache holds them. -/
structure Collecting (start : Nat) (goal : Nat → Block) (s : State) (pending : List Update) :
    Prop where
  empty : getHead (s.io.disk start) = []
  batch : Installable start s.lh
  synced : Synced s.io s.lh
  keys : ∀ b, b ∈ s.lh ↔ b ∈ pending.map Update.block
  latest : ∀ b ∈ s.lh, s.io.content b = applyTx goal pending b

/-- The committed transaction, with the blocks before `tail` installed. -/
structure Installing (start : Nat) (s : State) (tail : Nat) : Prop where
  head : getHead (s.io.disk start) = s.lh
  synced : Synced s.io (s.lh.drop tail)
  copied : ∀ i, ∀ h : i < s.lh.length, s.io.content s.lh[i] = s.io.disk (start + i + 1)

structure Erased (start : Nat) (s : State) (pending : List Update) : Prop where
  empty : getHead (s.io.disk start) = []
  lh : s.lh = []
  synced : Synced s.io []
  pending : pending = []

structure Idle (s : State) : Prop where
  active : s.active = []
  outstanding : s.outstanding = 0

def Memory (start : Nat) (goal : Nat → Block) (s : State) (pending : List Update) : Prop :=
  match s.phase with
  | .running =>
    s.committing = false ∧ s.outstanding = s.active.length ∧ Collecting start goal s pending
  | .writeLog tail =>
    s.committing = true ∧ Idle s ∧ Collecting start goal s pending ∧
      ∀ i, ∀ h : i < s.lh.length, i < tail → s.io.disk (start + i + 1) = s.io.content s.lh[i]
  | .install tail => s.committing = true ∧ Idle s ∧ pending = [] ∧ Installing start s tail
  | .endCommit => s.committing = true ∧ Idle s ∧ Erased start s pending
  | .down => s.committing = false ∧ Idle s ∧ pending = [] ∧ Synced s.io []
  | .recover tail =>
    s.committing = false ∧ Idle s ∧ pending = [] ∧ getHead (s.io.disk start) = s.lh ∧
      Synced s.io [] ∧
      ∀ i, ∀ h : i < s.lh.length, i < tail → s.io.disk s.lh[i] = s.io.disk (start + i + 1)
  | .recovered => s.committing = false ∧ Idle s ∧ Erased start s pending

structure Inv (start : Nat) (disk : Nat → Block) (s : State) (h : History) : Prop where
  recoverable : Recoverable start s.io.disk (applyTxs disk h.committed)
  memory : Memory start (applyTxs disk h.committed) s h.pending

variable {s s' : State} {pending : List Update} {dirty : List Nat}

theorem Synced.of_same (synced : Synced io dirty) (content : ∀ b, io'.content b = io.content b)
    (disk : io'.disk = io.disk) (refs : ∀ b, io'.refs b = io.refs b) : Synced io' dirty where
  clean b absent := by rw [content, disk, synced.clean b absent]
  pinned b mem := by
    rw [refs]
    exact synced.pinned b mem

theorem Memory.synced (mem : Memory start goal s pending) : ∃ dirty, Synced s.io dirty := by
  unfold Memory at mem
  split at mem
  · exact ⟨_, mem.2.2.synced⟩
  · exact ⟨_, mem.2.2.1.synced⟩
  · exact ⟨_, mem.2.2.2.synced⟩
  · exact ⟨_, mem.2.2.synced⟩
  · exact ⟨_, mem.2.2.2⟩
  · exact ⟨_, mem.2.2.2.2.1⟩
  · exact ⟨_, mem.2.2.synced⟩

theorem Memory.of_same (mem : Memory start goal s pending)
    (content : ∀ b, io'.content b = s.io.content b) (disk : io'.disk = s.io.disk)
    (refs : ∀ b, io'.refs b = s.io.refs b) : Memory start goal { s with io := io' } pending := by
  cases point : s.phase <;> simp only [Memory, point] at mem ⊢
  · obtain ⟨free, count, ⟨empty, batch, synced, keys, latest⟩⟩ := mem
    exact ⟨free, count, ⟨disk ▸ empty, batch, synced.of_same content disk refs, keys,
      fun b listed => (content b).trans (latest b listed)⟩⟩
  · obtain ⟨busy, idle, ⟨empty, batch, synced, keys, latest⟩, copied⟩ := mem
    refine ⟨busy, ⟨idle.1, idle.2⟩, ⟨disk ▸ empty, batch, synced.of_same content disk refs, keys,
      fun b listed => (content b).trans (latest b listed)⟩, fun i h before => ?_⟩
    rw [content, disk]
    exact copied i h before
  · obtain ⟨busy, idle, none, ⟨head, synced, copied⟩⟩ := mem
    refine ⟨busy, ⟨idle.1, idle.2⟩, none, ⟨disk ▸ head, synced.of_same content disk refs, ?_⟩⟩
    intro i h
    rw [content, disk]
    exact copied i h
  · obtain ⟨busy, idle, ⟨empty, noLh, synced, none⟩⟩ := mem
    exact ⟨busy, ⟨idle.1, idle.2⟩, ⟨disk ▸ empty, noLh, synced.of_same content disk refs, none⟩⟩
  · obtain ⟨free, idle, none, synced⟩ := mem
    exact ⟨free, ⟨idle.1, idle.2⟩, none, synced.of_same content disk refs⟩
  · obtain ⟨free, idle, none, head, synced, home⟩ := mem
    refine ⟨free, ⟨idle.1, idle.2⟩, none, disk ▸ head, synced.of_same content disk refs, ?_⟩
    intro i h before
    simp only [disk]
    exact home i h before
  · obtain ⟨free, idle, ⟨empty, noLh, synced, none⟩⟩ := mem
    exact ⟨free, ⟨idle.1, idle.2⟩, ⟨disk ▸ empty, noLh, synced.of_same content disk refs, none⟩⟩

/-! ## One step, transition by transition -/

theorem applyTx_append (us : List Update) (u : Update) :
    applyTx goal (us ++ [u]) = Function.update (applyTx goal us) u.block u.data := by
  simp [applyTx, Redo.writes_append, Update.write]

theorem Collecting.logWrite (col : Collecting start goal s pending) (data : Block)
    (small : b < 2 ^ 32) (out : Outside start b) (room : s.lh.length < LOGBLOCKS) :
    Collecting start goal
      { s with io := (logWriteBlock s.io s.lh b data).1, lh := (logWriteBlock s.io s.lh b data).2 }
      (pending ++ [⟨t, b, data⟩]) := by
  obtain ⟨empty, batch, ⟨clean, pinned⟩, keys, latest⟩ := col
  have lh := logWriteBlock_lh s.io b s.lh data
  have listed : ∀ b', b' ∈ (logWriteBlock s.io s.lh b data).2 ↔ b' ∈ s.lh ∨ b' = b := by
    intro b'
    rw [lh]
    split <;> grind
  refine ⟨?_, ⟨?_, ?_, ?_, ?_⟩, ⟨?_, ?_⟩, ?_, ?_⟩
  · rw [logWriteBlock_disk]
    exact empty
  · rw [lh]
    split <;> grind
  · rw [lh]
    split
    · exact batch.nodup
    · next fresh => exact batch.nodup.append (List.nodup_singleton b) (by simpa using fresh)
  · intro b' mem
    rcases (listed b').mp mem with old | rfl
    · exact batch.outside b' old
    · exact out
  · intro b' mem
    rcases (listed b').mp mem with old | rfl
    · exact batch.small b' old
    · exact small
  · intro b' absent
    rw [listed, not_or] at absent
    rw [logWriteBlock_content, logWriteBlock_disk, if_neg absent.2, clean b' absent.1]
  · intro b' mem
    rw [logWriteBlock_refs]
    split
    · omega
    rename_i kept
    refine pinned b' ?_
    rcases (listed b').mp mem with old | rfl
    · exact old
    · by_contra fresh
      exact kept ⟨rfl, fresh⟩
  · intro b'
    rw [listed, keys]
    simp
  · intro b' mem
    rw [logWriteBlock_content, applyTx_append, Function.update_apply]
    split
    · rfl
    · next other =>
      exact latest b' (((listed b').mp mem).resolve_right other)

theorem Collecting.writeLog (col : Collecting start goal s pending) (h : tail < s.lh.length) :
    Collecting start goal
      { s with io := writeLogBlock s.io start tail s.lh[tail], phase := phase } pending := by
  obtain ⟨empty, batch, ⟨clean, pinned⟩, keys, latest⟩ := col
  have slot : ¬ Outside start (start + tail + 1) := not_outside_slot (by have := batch.room; omega)
  refine ⟨?_, batch, ⟨?_, ?_⟩, keys, ?_⟩
  · rw [writeLogBlock_disk, if_neg (by omega)]
    exact empty
  · intro b absent
    rw [writeLogBlock_content, writeLogBlock_disk, clean b absent]
  · intro b mem
    rw [writeLogBlock_refs]
    exact pinned b mem
  intro b mem
  have other : b ≠ start + tail + 1 := by
    rintro rfl
    exact slot (batch.outside _ mem)
  rw [writeLogBlock_content, if_neg other]
  exact latest b mem

theorem writeLog_copied (batch : Installable start s.lh) (h : tail < s.lh.length)
    (copied : ∀ i, ∀ h : i < s.lh.length, i < tail →
      s.io.disk (start + i + 1) = s.io.content s.lh[i])
    (hi : i < s.lh.length) (before : i < tail + 1) :
    (writeLogBlock s.io start tail s.lh[tail]).disk (start + i + 1) =
      (writeLogBlock s.io start tail s.lh[tail]).content s.lh[i] := by
  have other : s.lh[i] ≠ start + tail + 1 := by
    intro same
    exact not_outside_slot (by have := batch.room; omega)
      (same ▸ batch.outside _ (List.getElem_mem hi))
  rw [writeLogBlock_disk, writeLogBlock_content, if_neg other]
  by_cases here : i = tail
  · subst here
    rw [if_pos rfl]
  · rw [if_neg (by omega)]
    exact copied i hi (by omega)

theorem Collecting.commit (rec : Recoverable start s.io.disk goal)
    (col : Collecting start goal s pending)
    (copied : ∀ i, ∀ h : i < s.lh.length, s.io.disk (start + i + 1) = s.io.content s.lh[i])
    (phase : Phase) :
    Recoverable start (writeHead s.io start s.lh).disk (applyTx goal pending) ∧
      Installing start { s with io := writeHead s.io start s.lh, phase := phase } 0 := by
  obtain ⟨empty, batch, ⟨clean, pinned⟩, keys, latest⟩ := col
  have head : getHead ((writeHead s.io start s.lh).disk start) = s.lh := by
    rw [writeHead_disk, if_pos rfl]
    exact getHead_putHead _ batch.room batch.small
  have home : ∀ b ∈ s.lh, b ≠ start := by
    rintro b mem rfl
    exact not_outside_start (batch.outside _ mem)
  constructor
  · refine rec.commit empty batch head ?_ ?_ ?_
    · intro b other
      rw [writeHead_disk, if_neg other]
    · intro i h
      rw [copied i h, latest _ (List.getElem_mem h)]
    · intro b absent
      refine Redo.writes_of_not_mem ?_ goal
      rw [keys] at absent
      simpa [Update.write] using absent
  · refine ⟨head, ⟨?_, ?_⟩, ?_⟩
    · intro b absent
      rw [writeHead_content, writeHead_disk, clean b absent]
    · intro b mem
      rw [writeHead_refs]
      exact pinned b mem
    · intro i h
      rw [writeHead_content, writeHead_disk, if_neg (home _ (List.getElem_mem h)),
        if_neg (by omega), copied i h]

theorem Installing.install (rec : Recoverable start s.io.disk goal)
    (inst : Installing start s tail) (h : tail < s.lh.length) (phase : Phase) :
    Recoverable start (installBlock false s.io start tail s.lh[tail]).disk goal ∧
      Installing start
        { s with io := installBlock false s.io start tail s.lh[tail], phase := phase }
        (tail + 1) := by
  obtain ⟨head, ⟨clean, pinned⟩, copied⟩ := inst
  have batch : Installable start s.lh := head ▸ rec.head
  have inside : ∀ {b}, ¬ Outside start b → b ∉ s.lh := fun out mem => out (batch.outside _ mem)
  have slot : ∀ i, i < s.lh.length → start + i + 1 ∉ s.lh := fun i hi =>
    inside (not_outside_slot (by have := batch.room; omega))
  have drop : s.lh.drop tail = s.lh[tail] :: s.lh.drop (tail + 1) := List.drop_eq_getElem_cons h
  have source : s.io.content (start + tail + 1) = s.io.disk (start + tail + 1) :=
    clean _ fun mem => slot tail h (List.mem_of_mem_drop mem)
  constructor
  · refine rec.install _ ?_
    rw [head]
    exact List.getElem_mem h
  · refine ⟨?_, ⟨?_, ?_⟩, ?_⟩
    · have notHead : start ≠ s.lh[tail] := fun same =>
        inside not_outside_start (same ▸ List.getElem_mem h)
      rw [installBlock_disk, if_neg notHead]
      exact head
    · intro b absent
      rw [installBlock_content, installBlock_disk]
      split
      · rfl
      · next other =>
        refine clean b ?_
        rw [drop, List.mem_cons, not_or]
        exact ⟨other, absent⟩
    · intro b mem
      have other : b ≠ s.lh[tail] := by
        rintro rfl
        have nodup := batch.nodup.sublist (List.drop_sublist tail s.lh)
        rw [drop, List.nodup_cons] at nodup
        exact nodup.1 mem
      rw [installBlock_refs _ _ _ _ _ _ other]
      refine pinned b ?_
      rw [drop]
      exact List.mem_cons_of_mem _ mem
    · intro i hi
      have notSlot : start + i + 1 ≠ s.lh[tail] := by
        intro same
        exact slot i hi (same ▸ List.getElem_mem h)
      rw [installBlock_content, installBlock_disk, if_neg notSlot]
      split
      · next same =>
        have here : i = tail := batch.nodup.getElem_inj_iff.mp same
        rw [source, here]
      · exact copied i hi

theorem Recoverable.erase (rec : Recoverable start io.disk goal)
    (home : ∀ i, ∀ h : i < (getHead (io.disk start)).length,
      io.disk (getHead (io.disk start))[i] = io.disk (start + i + 1)) :
    Recoverable start (writeHead io start []).disk goal ∧
      getHead ((writeHead io start []).disk start) = [] := by
  have empty : getHead ((writeHead io start []).disk start) = [] := by
    rw [writeHead_disk, if_pos rfl]
    exact getHead_putHead _ (Nat.zero_le _) (by simp)
  refine ⟨.of_clean empty fun b out => ?_, empty⟩
  have other : b ≠ start := by
    rintro rfl
    exact not_outside_start out
  rw [writeHead_disk, if_neg other]
  exact rec.installed home out

theorem Synced.writeHead (synced : Synced io []) (lh : List Nat) :
    Synced (writeHead io start lh) [] where
  clean b _ := by
    rw [writeHead_content, writeHead_disk, synced.clean b (by simp)]
  pinned := by simp

theorem Recoverable.recover (rec : Recoverable start s.io.disk goal) (synced : Synced s.io [])
    (head : getHead (s.io.disk start) = s.lh) (h : tail < s.lh.length)
    (home : ∀ i, ∀ h : i < s.lh.length, i < tail → s.io.disk s.lh[i] = s.io.disk (start + i + 1)) :
    let io := installBlock true s.io start tail s.lh[tail]
    Recoverable start io.disk goal ∧ getHead (io.disk start) = s.lh ∧ Synced io [] ∧
      ∀ i, ∀ h : i < s.lh.length, i < tail + 1 → io.disk s.lh[i] = io.disk (start + i + 1) := by
  intro io
  have batch : Installable start s.lh := head ▸ rec.head
  have inside : ∀ {b}, ¬ Outside start b → b ≠ s.lh[tail] := by
    rintro b out rfl
    exact out (batch.outside _ (List.getElem_mem h))
  have slot : ∀ i, i < s.lh.length → start + i + 1 ≠ s.lh[tail] := fun i hi =>
    inside (not_outside_slot (by have := batch.room; omega))
  have content : ∀ b, s.io.content b = s.io.disk b := fun b => synced.clean b (by simp)
  refine ⟨?_, ?_, ⟨?_, by simp⟩, ?_⟩
  · refine rec.install _ ?_
    rw [head]
    exact List.getElem_mem h
  · rw [installBlock_disk, if_neg (inside not_outside_start)]
    exact head
  · intro b _
    rw [installBlock_content, installBlock_disk, content, content]
  · intro i hi before
    rw [installBlock_disk, installBlock_disk, if_neg (slot i hi)]
    split
    · next same =>
      have here : i = tail := batch.nodup.getElem_inj_iff.mp same
      rw [content, here]
    rename_i other
    have notLast : i ≠ tail := by
      rintro rfl
      exact other rfl
    exact home i hi (by omega)

/-! ## One step keeps the invariant -/

theorem Collecting.erased (col : Collecting start goal s pending) (none : s.lh = []) :
    Erased start s pending where
  empty := col.empty
  lh := none
  synced := none ▸ col.synced
  pending := by
    have noKeys : pending.map Update.block = [] := by
      refine List.eq_nil_iff_forall_not_mem.mpr fun b mem => ?_
      have listed := (col.keys b).mpr mem
      rw [none] at listed
      cases listed
    exact List.map_eq_nil_iff.mp noKeys

theorem Erased.collecting (erased : Erased start s pending) : Collecting start goal s pending where
  empty := erased.empty
  batch := by
    rw [erased.lh]
    exact ⟨Nat.zero_le _, List.nodup_nil, by simp, by simp⟩
  synced := erased.lh ▸ erased.synced
  keys := by simp [erased.lh, erased.pending]
  latest := by simp [erased.lh]

theorem Memory.running (mem : Memory start goal s pending) (active : t ∈ s.active) :
    s.phase = .running := by
  have busy : ¬ Idle s := by
    intro idle
    rw [idle.active] at active
    cases active
  unfold Memory at mem
  split at mem
  · assumption
  all_goals exact absurd mem.2.1 busy

section

variable (inv : Inv start disk s h)

include inv

theorem Inv.beginOp (up : s.phase.up = true)
    (free : s.committing = false) :
    Inv start disk
      { s with outstanding := s.outstanding + 1, active := s.nextOp :: s.active,
               nextOp := s.nextOp + 1 } h := by
  refine ⟨inv.recoverable, ?_⟩
  have mem := inv.memory
  cases point : s.phase <;> simp only [Memory, point] at mem ⊢
  case running =>
    obtain ⟨_, count, ⟨empty, batch, synced, keys, latest⟩⟩ := mem
    exact ⟨free, by simp [count], ⟨empty, batch, synced, keys, latest⟩⟩
  case down | recover | recovered => rw [point] at up; cases up
  all_goals
    have busy := mem.1
    rw [free] at busy
    cases busy

theorem Inv.logWrite (active : t ∈ s.active) (small : b < 2 ^ 32)
    (out : Outside start b) (room : s.lh.length < LOGBLOCKS) :
    Inv start disk
      { s with io := (logWriteBlock s.io s.lh b data).1, lh := (logWriteBlock s.io s.lh b data).2 }
      { h with pending := h.pending ++ [⟨t, b, data⟩], issued := h.issued ++ [⟨t, b, data⟩] } := by
  have point := inv.memory.running active
  have mem := inv.memory
  simp only [Memory, point] at mem
  refine ⟨?_, ?_⟩
  · have same : (logWriteBlock s.io s.lh b data).1.disk = s.io.disk := by
      funext b'
      simp
    simp only [same]
    exact inv.recoverable
  · have col := mem.2.2.logWrite (t := t) data small out room
    simp only [Memory, point] at col ⊢
    exact ⟨mem.1, mem.2.1, col⟩

theorem Inv.endOp (active : t ∈ s.active) :
    Inv start disk (endOp s t) h := by
  have point := inv.memory.running active
  have mem := inv.memory
  simp only [Memory, point] at mem
  obtain ⟨free, count, ⟨empty, batch, synced, keys, latest⟩⟩ := mem
  have count' : s.outstanding - 1 = (s.active.erase t).length := by
    rw [count, List.length_erase_of_mem active]
  unfold Log.endOp
  simp only
  split
  · next last =>
    have idle : s.active.erase t = [] := List.eq_nil_of_length_eq_zero (count' ▸ last)
    refine ⟨inv.recoverable, ?_⟩
    simp only [State.startCommit]
    split
    · simp only [Memory]
      exact ⟨trivial, ⟨idle, last⟩, ⟨empty, batch, synced, keys, latest⟩, by simp⟩
    have none : s.lh = [] := List.eq_nil_of_length_eq_zero (by omega)
    have erased := Collecting.erased ⟨empty, batch, synced, keys, latest⟩ none
    simp only [Memory]
    exact ⟨trivial, ⟨idle, last⟩, ⟨erased.empty, erased.lh, erased.synced, erased.pending⟩⟩
  · refine ⟨inv.recoverable, ?_⟩
    simp only [Memory, point]
    exact ⟨free, count', ⟨empty, batch, synced, keys, latest⟩⟩

theorem Inv.commit (step : commit start s = some (s', e)) :
    Inv start disk s' (h.note s (.commit, e)) := by
  have mem := inv.memory
  unfold Log.commit at step
  split at step
  case h_1 tail point =>
    simp only [Memory, point] at mem
    obtain ⟨busy, idle, col, copied⟩ := mem
    split at step
    · next inRange =>
      cases step
      refine ⟨?_, busy, ⟨idle.1, idle.2⟩, col.writeLog inRange, fun i hi before =>
        writeLog_copied col.batch inRange copied hi before⟩
      refine inv.recoverable.log col.empty ?_ fun b out => ?_
      · rw [writeLogBlock_disk, if_neg (by omega)]
      · have other : b ≠ start + tail + 1 := by
          rintro rfl
          exact not_outside_slot (by have := col.batch.room; omega) out
        rw [writeLogBlock_disk, if_neg other]
    · next past =>
      cases step
      obtain ⟨rec, inst⟩ := col.commit inv.recoverable
        (fun i hi => copied i hi (by omega)) (.install 0)
      refine ⟨?_, busy, ⟨idle.1, idle.2⟩, rfl, inst⟩
      simpa [History.note, applyTxs] using rec
  case h_2 tail point =>
    simp only [Memory, point] at mem
    obtain ⟨busy, idle, none, inst⟩ := mem
    split at step
    · next inRange =>
      cases step
      obtain ⟨rec, inst'⟩ := inst.install inv.recoverable inRange (.install (tail + 1))
      exact ⟨rec, busy, ⟨idle.1, idle.2⟩, none, inst'⟩
    cases step
    obtain ⟨head, synced, copied⟩ := inst
    rw [List.drop_eq_nil_of_le (by omega)] at synced
    obtain ⟨rec, empty⟩ := inv.recoverable.erase <| by
      rw [head]
      intro i hi
      rw [← copied i hi, synced.clean _ (by simp)]
    exact ⟨rec, busy, ⟨idle.1, idle.2⟩, ⟨empty, rfl, synced.writeHead [], none⟩⟩
  case h_3 point =>
    simp only [Memory, point] at mem
    obtain ⟨busy, idle, erased⟩ := mem
    cases step
    refine ⟨inv.recoverable, rfl, ?_, Erased.collecting
      ⟨erased.empty, erased.lh, erased.synced, erased.pending⟩⟩
    rw [idle.active, idle.outstanding]
    rfl
  case h_4 => cases step

theorem Inv.recover (step : recover start s = some s') :
    Inv start disk s' h := by
  have mem := inv.memory
  unfold Log.recover at step
  split at step
  case h_1 point =>
    simp only [Memory, point] at mem
    obtain ⟨free, idle, none, synced⟩ := mem
    cases step
    refine ⟨inv.recoverable, free, ⟨idle.1, idle.2⟩, none, ?_, ?_, by simp⟩
    · simp only [Io.recount_disk, synced.clean start (by simp)]
    · exact synced.of_same (by simp) rfl (by grind)
  case h_2 tail point =>
    simp only [Memory, point] at mem
    obtain ⟨free, idle, none, head, synced, home⟩ := mem
    split at step
    · next inRange =>
      cases step
      obtain ⟨rec, head', synced', home'⟩ :=
        inv.recoverable.recover synced head inRange home
      exact ⟨rec, free, ⟨idle.1, idle.2⟩, none, head', synced', home'⟩
    · next past =>
      cases step
      obtain ⟨rec, empty⟩ := inv.recoverable.erase <| by
        rw [head]
        exact fun i hi => home i hi (by omega)
      exact ⟨rec, free, ⟨idle.1, idle.2⟩, ⟨empty, rfl, synced.writeHead [], none⟩⟩
  case h_3 point =>
    simp only [Memory, point] at mem
    obtain ⟨free, idle, erased⟩ := mem
    cases step
    refine ⟨inv.recoverable, free, ?_, Erased.collecting
      ⟨erased.empty, erased.lh, erased.synced, erased.pending⟩⟩
    rw [idle.active, idle.outstanding]
    rfl
  case h_4 => cases step

end

theorem Inv.off {h : History} (recoverable : Recoverable start d (applyTxs disk h.committed))
    (nextOp : Nat) : Inv start disk (off d nextOp) { h with pending := [] } where
  recoverable := recoverable
  memory := ⟨rfl, ⟨rfl, rfl⟩, rfl, ⟨fun _ _ => rfl, by simp⟩⟩

theorem Inv.evict (inv : Inv start disk s h) (free : s.io.refs b = 0) :
    Inv start disk { s with io := s.io.evict b } h := by
  obtain ⟨dirty, synced⟩ := inv.memory.synced
  have clean : s.io.content b = s.io.disk b := by
    refine synced.clean b fun mem => ?_
    have pinned := synced.pinned b mem
    omega
  refine ⟨inv.recoverable, inv.memory.of_same (fun b' => ?_) rfl fun b' => ?_⟩
  · rw [Io.evict_content]
    split
    · next same => rw [same, clean]
    · rfl
  · rw [Io.evict_refs]
    split
    · next same => rw [same, free]
    · rfl

theorem Inv.step (inv : Inv start disk s h) (step : exec start s l.1 = some (s', l.2)) :
    Inv start disk s' (h.note s l) := by
  obtain ⟨a, e⟩ := l
  cases a with
  | beginOp =>
    obtain ⟨ready, ⟨⟩⟩ := Option.ite_none_right_eq_some.mp step
    exact inv.beginOp ready.1 (by simpa using ready.2.1)
  | logWrite t b data =>
    obtain ⟨⟨ready, mem, disk, size, _⟩, ⟨⟩⟩ := Option.ite_none_right_eq_some.mp step
    exact inv.logWrite ready mem disk size
  | endOp t =>
    obtain ⟨ready, ⟨⟩⟩ := Option.ite_none_right_eq_some.mp step
    exact inv.endOp ready.1
  | commit => exact inv.commit step
  | read b =>
    obtain ⟨-, ⟨⟩⟩ := Option.ite_none_right_eq_some.mp step
    exact ⟨inv.recoverable, inv.memory.of_same (by simp) rfl (by grind)⟩
  | evict b =>
    obtain ⟨free, ⟨⟩⟩ := Option.ite_none_right_eq_some.mp step
    exact inv.evict free
  | crash =>
    cases step
    exact .off inv.recoverable _
  | recover =>
    obtain ⟨s1, step', ⟨⟩⟩ := Option.map_eq_some_iff.mp step
    exact inv.recover step'

theorem Inv.together_commit (inv : Inv start disk s h) (together : Together s h)
    (step : Log.commit start s = some (s', e)) : Together s' (h.note s (.commit, e)) := by
  have mem := inv.memory
  unfold Log.commit at step
  split at step
  case h_1 tail point =>
    simp only [Memory, point] at mem
    split at step <;> cases step
    · exact together.of_same (fun _ mem => mem) rfl (by simp [Phase.installing])
    · exact together.commit mem.2.1.active
  case h_2 tail point =>
    split at step <;> cases step
    · exact together.of_same (fun _ mem => mem) rfl (by simp [point, Phase.installing])
    · have erased := together.erased
      rw [point] at erased
      exact ⟨together.ops, together.fresh, together.started, erased⟩
  case h_3 point =>
    cases step
    exact together.of_same (fun _ mem => mem) rfl (by simp [Phase.installing])
  case h_4 => cases step

theorem Inv.together (inv : Inv start disk s h) (together : Together s h)
    (step : exec start s l.1 = some (s', l.2)) : Together s' (h.note s l) := by
  obtain ⟨a, e⟩ := l
  cases a with
  | beginOp =>
    obtain ⟨-, ⟨⟩⟩ := Option.ite_none_right_eq_some.mp step
    exact together.beginOp
  | logWrite t b data =>
    obtain ⟨ready, ⟨⟩⟩ := Option.ite_none_right_eq_some.mp step
    exact together.logWrite ready.1
  | endOp t =>
    obtain ⟨-, ⟨⟩⟩ := Option.ite_none_right_eq_some.mp step
    refine together.of_same (fun t' mem => ?_) ?_ ?_
    · simp only [Log.endOp, State.startCommit] at mem
      split at mem <;> exact List.mem_of_mem_erase mem
    · simp only [Log.endOp, State.startCommit]
      split <;> rfl
    · simp only [Log.endOp, State.startCommit]
      split
      · split <;> simp [Phase.installing]
      · exact fun same => same
  | commit => exact inv.together_commit together step
  | read b | evict b =>
    obtain ⟨-, ⟨⟩⟩ := Option.ite_none_right_eq_some.mp step
    exact together.of_same (fun _ mem => mem) rfl (fun same => same)
  | crash =>
    cases step
    exact together.crash
  | recover =>
    obtain ⟨s1, step', ⟨⟩⟩ := Option.map_eq_some_iff.mp step
    unfold Log.recover at step'
    split at step'
    case h_2 =>
      split at step'
      all_goals
        cases step'
        exact together.of_same (fun _ mem => mem) rfl (by simp [Phase.installing])
    case h_4 => cases step'
    all_goals
      cases step'
      exact together.of_same (fun _ mem => mem) rfl (by simp [Phase.installing])

theorem inv_of_reachable (clean : (disk start).word 0 = 0)
    (reach : (logged start disk).Reachable (s, h)) : Inv start disk s h ∧ Together s h := by
  refine Lts.Reachable.invariant (P := fun x => Inv start disk x.1 x.2 ∧ Together x.1 x.2)
    reach ?_ ?_
  · rintro ⟨s, h⟩ ⟨rfl, rfl⟩
    have recoverable : Recoverable start disk (applyTxs disk []) :=
      .of_clean (getHead_of_word_zero clean) fun _ _ => rfl
    refine ⟨.off (h := {}) recoverable 0, ?_, by simp, by simp [off], Nat.zero_le _⟩
    exact fun t => .inl ⟨by simp, .inl rfl⟩
  · rintro ⟨s, h⟩ l ⟨s', h'⟩ ⟨inv, together⟩ ⟨step, rfl⟩
    exact ⟨inv.step step, inv.together together step⟩

/-- **Crash atomicity.** When `recover_from_log` has completed, the disk outside
the log is the initial one with the committed transactions applied in order.
Those are at least the ones whose erasing header write reached the disk, and of
every operation they contain all updates or none. -/
theorem crash_atomicity {h : History} (clean : (disk start).word 0 = 0)
    (reach : (logged start disk).Reachable (s, h)) (recovered : s.phase = .recovered) :
    (∀ b, Outside start b → s.io.disk b = applyTxs disk h.committed b) ∧
      h.erased ≤ h.committed.length ∧ AllOrNone h := by
  obtain ⟨inv, together⟩ := inv_of_reachable clean reach
  have mem := inv.memory
  simp only [Memory, recovered] at mem
  refine ⟨fun b out => inv.recoverable.clean mem.2.2.empty out, ?_, together.allOrNone⟩
  have erased := together.erased
  omega

/-- A disk of zeros, and the block of ones an operation writes to it. -/
def zeros : Nat → Block := fun _ _ => 0

def ones : Block := fun _ => 1

/-- Operation 0 writes block 50 and commits; the machine crashes when the header
is on disk and nothing is installed, and again in the middle of the recovery. -/
def crashes : List Action :=
  [.recover, .recover, .recover, .beginOp, .logWrite 0 50 ones, .endOp 0, .commit, .commit,
    .crash, .recover, .recover, .crash, .recover, .recover, .recover]

/-- After these crashes the committed update is there. -/
theorem crash_atomicity_crashes :
    ∃ s h, (logged 2 zeros).Reachable (s, h) ∧ s.phase = .recovered ∧
      h.committed = [[⟨0, 50, ones⟩]] ∧
      (∀ b, Outside 2 b → s.io.disk b = applyTxs zeros h.committed b) ∧
      h.erased ≤ h.committed.length ∧ AllOrNone h := by
  have start : (logged 2 zeros).Reachable (off zeros 0, {}) := .init ⟨rfl, rfl⟩
  have shown : (Lts.replay (exec 2) (fun _ _ => True) History.note crashes
      (off zeros 0, {})).map (fun x => x.1.phase) = some .recovered := by
    decide +kernel
  obtain ⟨x, run, phase⟩ := Option.map_eq_some_iff.mp shown
  have reach : (logged 2 zeros).Reachable x :=
    Lts.ReachableWhen.of_replay (fun _ _ => True) start run
  have committed : x.2.committed = [[⟨0, 50, ones⟩]] := by
    have same := congrArg (Option.map fun x => x.2.committed) run
    exact (Option.some.inj (same.symm.trans rfl))
  exact ⟨x.1, x.2, reach, phase, committed, crash_atomicity (by decide +kernel) reach phase⟩

end Xv6.Log
