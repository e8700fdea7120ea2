import Xv6.Lib.Transition
import Xv6.Lib.Circular
import Xv6.Lib.Monitor
import Xv6.Proc

/-!
# The console

`consoleread` and `consoleintr` of `kernel/console.c`: the interrupt handler edits a line in a
circular buffer, and any number of processes read the lines that are complete.

The step boundaries are the acquisitions and releases of `cons.lock`, and the iterations of
the loop of `consoleread`. `consoleintr` is one step, as it holds the lock from its begin to
its end; its echo is not modelled. A process in `sleep` may go on at any time here, as the
order of sleeping and waking does not matter for which bytes it gets. Whether a process has
been killed and whether its `copyout` succeeds is a choice of the step.

`Line` is what the buffer is for: the bytes that can be read, and those that can be edited.
-/

namespace Xv6.Console

open Circular (length_window size size_add size_pred size_self size_succ slot window window_of_ne
  window_pred window_self)
open Function

def INPUT_BUF_SIZE : Nat := 128

instance : NeZero INPUT_BUF_SIZE := ⟨by decide⟩

def ctrlD : UInt8 := 4
def ctrlH : UInt8 := 8
def newline : UInt8 := 10
def carriageReturn : UInt8 := 13
def ctrlP : UInt8 := 16
def ctrlU : UInt8 := 21
def delete : UInt8 := 127

/-! ## The line -/

/-- The bytes from `r` to `w` and those from `w` to `e`. -/
structure Line where
  committed : List UInt8
  editing : List UInt8

def Line.length (l : Line) : Nat := l.committed.length + l.editing.length

/-- `c` is appended, and ends the line if it is a newline or a ctrl-D, or the last that fits. -/
def Line.append (l : Line) (c : UInt8) : Line :=
  if c = newline ∨ c = ctrlD ∨ l.length + 1 = INPUT_BUF_SIZE then
    { committed := l.committed ++ (l.editing ++ [c]), editing := [] }
  else { l with editing := l.editing ++ [c] }

def Line.input (l : Line) (c : UInt8) : Line :=
  if c = ctrlP then l
  else if c = ctrlU then { l with editing := [] }
  else if c = ctrlH ∨ c = delete then { l with editing := l.editing.dropLast }
  else if c ≠ 0 ∧ l.length < INPUT_BUF_SIZE then
    l.append (if c = carriageReturn then newline else c)
  else l

/-! ## The model -/

inductive Stop
  | count | newline | ctrlD | fault | killed
  deriving DecidableEq

/-- Where a process is in `consoleread`; `n` is its argument, and `got` what it has copied. -/
inductive Pc
  | user
  /-- Without `cons.lock`: before it is acquired, or in `sleep`. -/
  | wait (n : Int) (got : List UInt8)
  /-- At the head of the loop. -/
  | loop (n : Int) (got : List UInt8)
  /-- About to release `cons.lock` and return. -/
  | release (n : Int) (got : List UInt8) (stop : Stop)
  deriving DecidableEq

structure State where
  buf : Fin INPUT_BUF_SIZE → UInt8
  r : UInt32
  w : UInt32
  e : UInt32
  lock : Option Slot
  pc : Slot → Pc

inductive Effect
  /-- The bytes `bs` can be read now. -/
  | committed (bs : List UInt8)
  | delivered (p : Slot) (c : UInt8)
  /-- A ctrl-D is taken out of the buffer. -/
  | marker (p : Slot)
  /-- A byte is taken out of the buffer, and its `copyout` fails. -/
  | lost (p : Slot) (c : UInt8)
  /-- `consoleread(n)` returns, with -1 if it has been killed, else with the length of `got`. -/
  | returned (p : Slot) (n : Int) (got : List UInt8) (stop : Stop)
  deriving DecidableEq

inductive Action
  | input (c : UInt8)
  | read (p : Slot) (n : Int)
  | run (p : Slot) (killed copies : Bool)
  deriving DecidableEq

def State.setPc (s : State) (p : Slot) (pc : Pc) : State :=
  { s with pc := update s.pc p pc }

def State.setLock (s : State) (holder : Option Slot) : State := { s with lock := holder }

/-- The loop of ctrl-U; the first argument bounds the number of its iterations. -/
def killLine (buf : Fin INPUT_BUF_SIZE → UInt8) (w : UInt32) : Nat → UInt32 → UInt32
  | 0, e => e
  | fuel + 1, e =>
    if e ≠ w ∧ buf (slot INPUT_BUF_SIZE (e - 1)) ≠ newline then killLine buf w fuel (e - 1) else e

/-- The default case of `consoleintr`, for a character that is stored. -/
def store (s : State) (c : UInt8) : State × Option Effect :=
  let s' := { s with buf := update s.buf (slot INPUT_BUF_SIZE s.e) c, e := s.e + 1 }
  if c = newline ∨ c = ctrlD ∨ s'.e - s.r = UInt32.ofNat INPUT_BUF_SIZE then
    ({ s' with w := s'.e }, some (.committed (window s'.buf s.w s'.e)))
  else (s', none)

def consoleintr (s : State) (c : UInt8) : State × Option Effect :=
  if c = ctrlP then (s, none)
  else if c = ctrlU then ({ s with e := killLine s.buf s.w (s.e - s.w).toNat s.e }, none)
  else if c = ctrlH ∨ c = delete then
    (if s.e ≠ s.w then { s with e := s.e - 1 } else s, none)
  else if c ≠ 0 ∧ s.e - s.r < UInt32.ofNat INPUT_BUF_SIZE then
    store s (if c = carriageReturn then newline else c)
  else (s, none)

/-- `cons.r++` and `cons.r--`. -/
def State.take (s : State) : State := { s with r := s.r + 1 }
def State.giveBack (s : State) : State := { s with r := s.r - 1 }

/-- One iteration of `consoleread`. The `target` of the source is `n` here, and its `n` is what is
left of it. -/
def consolereadBody (s : State) (p : Slot) (killed copies : Bool) (n : Int) (got : List UInt8) :
    State × Option Effect :=
  if got.length < n then
    if s.r = s.w then
      if killed then (s.setPc p (.release n got .killed), none)
      else ((s.setLock none).setPc p (.wait n got), none)
    else
      let c := s.buf (slot INPUT_BUF_SIZE s.r)
      if c = ctrlD then
        -- a ctrl-D after other bytes is left for the next call
        if 0 < got.length then (s.take.giveBack.setPc p (.release n got .ctrlD), none)
        else (s.take.setPc p (.release n got .ctrlD), some (.marker p))
      else if copies then
        (s.take.setPc p
          (if c = newline then .release n (got ++ [c]) .newline else .loop n (got ++ [c])),
          some (.delivered p c))
      else (s.take.setPc p (.release n got .fault), some (.lost p c))
  else (s.setPc p (.release n got .count), none)

def exec (s : State) : Action → Option (State × Option Effect)
  | .input c => if s.lock = none then some (consoleintr s c) else none
  | .read p n => if s.pc p = .user then some (s.setPc p (.wait n []), none) else none
  | .run p killed copies =>
    match s.pc p with
    | .user => none
    | .wait n got =>
      if s.lock = none then some ((s.setLock (some p)).setPc p (.loop n got), none) else none
    | .loop n got => some (consolereadBody s p killed copies n got)
    | .release n got stop => some ((s.setLock none).setPc p .user, some (.returned p n got stop))

/-- `cons` is a static variable. -/
def boot : State where
  buf _ := 0
  r := 0
  w := 0
  e := 0
  lock := none
  pc _ := .user

abbrev Label := Action × Option Effect

def system : Lts State Label := Lts.ofExec (· = boot) exec

inductive Step (s : State) : Action → State → Option Effect → Prop
  | input {c : UInt8} :
      s.lock = none → Step s (.input c) (consoleintr s c).1 (consoleintr s c).2
  | read {p : Slot} {n : Int} :
      Step s (.read p n) (s.setPc p (.wait n [])) none
  | lock {p : Slot} {killed copies : Bool} {n : Int} {got : List UInt8} :
      s.pc p = .wait n got → s.lock = none →
      Step s (.run p killed copies) ((s.setLock (some p)).setPc p (.loop n got)) none
  | body {p : Slot} {killed copies : Bool} {n : Int} {got : List UInt8} :
      s.pc p = .loop n got →
      Step s (.run p killed copies) (consolereadBody s p killed copies n got).1
        (consolereadBody s p killed copies n got).2
  | release {p : Slot} {killed copies : Bool} {n : Int} {got : List UInt8} {stop : Stop} :
      s.pc p = .release n got stop →
      Step s (.run p killed copies) ((s.setLock none).setPc p .user)
        (some (.returned p n got stop))

theorem Step.of_exec (step : exec s a = some (s', e)) : Step s a s' e := by
  cases a with
  | input c =>
    unfold exec at step
    dsimp only at step
    split at step
    · next free =>
      have input := Step.input (c := c) free
      rwa [Option.some.inj step] at input
    · cases step
  | read p n =>
    unfold exec at step
    dsimp only at step
    split at step <;> cases step
    exact .read
  | run p killed copies =>
    unfold exec at step
    dsimp only at step
    split at step
    · cases step
    · next n got at_ =>
      split at step
      · next free =>
        cases step
        exact .lock at_ free
      · cases step
    · next n got at_ =>
      have body : Step s (.run p killed copies) _ _ := .body at_
      rwa [Option.some.inj step] at body
    · next n got stop at_ =>
      cases step
      exact .release at_

/-- The bytes that could be read, that have been taken out of the buffer, and that have been
copied to a reader; and whether a `copyout` has failed. -/
structure History where
  committed : List UInt8 := []
  consumed : List UInt8 := []
  delivered : List UInt8 := []
  failed : Bool := false
  /-- the argument of each process's last call, and the bytes copied to the process since then -/
  calls : Slot → Int × List UInt8 := fun _ => (0, [])

def History.note (h : History) : Label → History
  | (.read p n, _) => { h with calls := update h.calls p (n, []) }
  | (_, some (.committed bs)) => { h with committed := h.committed ++ bs }
  | (_, some (.delivered p c)) =>
    { h with
      consumed := h.consumed ++ [c]
      delivered := h.delivered ++ [c]
      calls := update h.calls p ((h.calls p).1, (h.calls p).2 ++ [c]) }
  | (_, some (.marker _)) => { h with consumed := h.consumed ++ [ctrlD] }
  | (_, some (.lost _ c)) => { h with consumed := h.consumed ++ [c], failed := true }
  | _ => h

def traced : Lts (State × History) Label := system.observed {} fun h _ label => h.note label

/-! ## The buffer is a line -/

def State.line (s : State) : Line where
  committed := window s.buf s.r s.w
  editing := window s.buf s.w s.e

/-- The buffer has room for what is in it, and no line that is edited is complete. -/
structure Buffer (s : State) : Prop where
  room : size s.r s.w + size s.w s.e ≤ INPUT_BUF_SIZE
  plain : ∀ c ∈ s.line.editing, c ≠ newline

section Buffer

variable {s : State} {c : UInt8}

theorem small : INPUT_BUF_SIZE < 2 ^ 32 := by decide

theorem length_line (s : State) : s.line.length = size s.r s.w + size s.w s.e := by
  unfold Line.length State.line
  rw [length_window, length_window]

theorem Buffer.size_re (buffer : Buffer s) : size s.r s.e = size s.r s.w + size s.w s.e :=
  size_add (Nat.lt_of_le_of_lt buffer.room small)

/-- ctrl-U removes the whole line, as there is no newline in it. -/
theorem killLine_eq (fuel : Nat) (e : UInt32) (enough : size w e ≤ fuel)
    (plain : ∀ c ∈ window buf w e, c ≠ newline) : killLine buf w fuel e = w := by
  induction fuel generalizing e with
  | zero => exact (Circular.size_eq_zero.mp (Nat.le_zero.mp enough)).symm
  | succ fuel ih =>
    unfold killLine
    by_cases empty : e = w
    · rw [if_neg fun h => h.1 empty]
      exact empty
    have ne : w ≠ e := fun same => empty same.symm
    rw [window_pred ne] at plain
    have last := plain _ (List.mem_append_right _ (List.mem_singleton_self _))
    rw [if_pos ⟨empty, last⟩]
    have less := size_pred ne
    exact ih _ (by omega) fun c inside => plain c (List.mem_append_left _ inside)

theorem stored (free : size s.r s.w + size s.w s.e < INPUT_BUF_SIZE) :
    let buf := update s.buf (slot INPUT_BUF_SIZE s.e) c
    window buf s.r s.w = s.line.committed ∧ window buf s.w (s.e + 1) = s.line.editing ++ [c] ∧
    size s.w (s.e + 1) = size s.w s.e + 1 := by
  refine ⟨Circular.window_update (by decide) free small,
    Circular.window_push (by decide) small (by omega), size_succ ?_⟩
  have := small
  omega

theorem full_iff (buffer : Buffer s) (free : size s.r s.w + size s.w s.e < INPUT_BUF_SIZE) :
    s.e + 1 - s.r = UInt32.ofNat INPUT_BUF_SIZE ↔ s.line.length + 1 = INPUT_BUF_SIZE := by
  have next : size s.r (s.e + 1) = s.line.length + 1 := by
    rw [length_line, ← buffer.size_re]
    refine size_succ ?_
    have := small
    rw [buffer.size_re]
    omega
  rw [← next, ← UInt32.toNat_inj]
  rfl

/-- What is committed by a step. -/
def Effect.bytes : Option Effect → List UInt8
  | some (.committed bs) => bs
  | _ => []

/-- The step of the interrupt handler to `x` makes the line `l`, and shows what it commits. -/
structure Edits (s : State) (x : State × Option Effect) (l : Line) : Prop where
  line : x.1.line = l
  buffer : Buffer x.1
  committed : l.committed = s.line.committed ++ Effect.bytes x.2

theorem Buffer.unchanged (buffer : Buffer s) : Edits s (s, none) s.line where
  line := rfl
  buffer := buffer
  committed := (List.append_nil _).symm

theorem Buffer.store (buffer : Buffer s) (free : size s.r s.w + size s.w s.e < INPUT_BUF_SIZE) :
    Edits s (store s c) (s.line.append c) := by
  obtain ⟨before, after, longer⟩ := stored (c := c) free
  have bound : size s.r s.w + size s.w (s.e + 1) ≤ INPUT_BUF_SIZE := by omega
  have ends_iff := or_congr_right (or_congr_right (full_iff buffer free) : c = ctrlD ∨ _ ↔ _)
    (a := c = newline)
  unfold Line.append
  by_cases ends : c = newline ∨ c = ctrlD ∨ s.line.length + 1 = INPUT_BUF_SIZE
  · have is : Console.store s c = ({ s with
          buf := update s.buf (slot INPUT_BUF_SIZE s.e) c, w := s.e + 1, e := s.e + 1 },
        some (.committed (window (update s.buf (slot INPUT_BUF_SIZE s.e) c) s.w (s.e + 1)))) :=
      if_pos (ends_iff.mpr ends)
    rw [if_pos ends, is, after]
    have committed : window (update s.buf (slot INPUT_BUF_SIZE s.e) c) s.r (s.e + 1) =
        s.line.committed ++ (s.line.editing ++ [c]) := by
      rw [Circular.window_append (Nat.lt_of_le_of_lt bound small), before, after]
    have nothing := window_self (update s.buf (slot INPUT_BUF_SIZE s.e) c) (s.e + 1)
    refine ⟨congrArg₂ Line.mk committed nothing, ⟨?_, ?_⟩, rfl⟩
    · rw [size_self, size_add (Nat.lt_of_le_of_lt bound small)]
      exact bound
    · show ∀ d ∈ window _ (s.e + 1) (s.e + 1), d ≠ newline
      rw [nothing]
      exact nofun
  · have is : Console.store s c = ({ s with
          buf := update s.buf (slot INPUT_BUF_SIZE s.e) c, e := s.e + 1 }, none) :=
      if_neg fun stops => ends (ends_iff.mp stops)
    rw [if_neg ends, is]
    refine ⟨congrArg₂ Line.mk before after, ⟨bound, ?_⟩, (List.append_nil _).symm⟩
    show ∀ d ∈ window _ s.w (s.e + 1), d ≠ newline
    rw [after]
    intro d inside
    rcases List.mem_append.mp inside with old | new
    · exact buffer.plain d old
    · rw [List.mem_singleton.mp new]
      exact fun same => ends (.inl same)

theorem Buffer.killLine (buffer : Buffer s) :
    Edits s ({ s with e := killLine s.buf s.w (s.e - s.w).toNat s.e }, none)
      { s.line with editing := [] } := by
  have all : Console.killLine s.buf s.w (s.e - s.w).toNat s.e = s.w :=
    killLine_eq _ _ (Nat.le_refl _) buffer.plain
  have nothing : window s.buf s.w s.w = [] := window_self _ _
  rw [all]
  refine ⟨congrArg (Line.mk _) nothing, ⟨?_, ?_⟩, (List.append_nil _).symm⟩
  · have := buffer.room
    show size s.r s.w + size s.w s.w ≤ INPUT_BUF_SIZE
    rw [size_self]
    omega
  · show ∀ d ∈ window s.buf s.w s.w, d ≠ newline
    rw [nothing]
    exact nofun

theorem Buffer.backspace (buffer : Buffer s) :
    Edits s (if s.e ≠ s.w then { s with e := s.e - 1 } else s, none)
      { s.line with editing := s.line.editing.dropLast } := by
  by_cases empty : s.e = s.w
  · have nothing : s.line.editing = [] := by
      show window s.buf s.w s.e = []
      rw [empty, window_self]
    rw [if_neg fun ne => ne empty]
    refine ⟨?_, buffer, (List.append_nil _).symm⟩
    rw [nothing]
    exact congrArg (Line.mk _) nothing
  · have ne : s.w ≠ s.e := fun same => empty same.symm
    have last : s.line.editing =
        window s.buf s.w (s.e - 1) ++ [s.buf (slot INPUT_BUF_SIZE (s.e - 1))] :=
      window_pred ne
    rw [if_pos empty]
    refine ⟨?_, ⟨?_, ?_⟩, (List.append_nil _).symm⟩
    · rw [last, List.dropLast_concat]
      rfl
    · have := size_pred ne
      have := buffer.room
      show size s.r s.w + size s.w (s.e - 1) ≤ INPUT_BUF_SIZE
      omega
    · intro d inside
      refine buffer.plain d ?_
      rw [last]
      exact List.mem_append_left _ inside

theorem Buffer.consoleintr (buffer : Buffer s) (c : UInt8) :
    Edits s (consoleintr s c) (s.line.input c) := by
  unfold Console.consoleintr Line.input
  split
  · exact buffer.unchanged
  split
  · exact buffer.killLine
  split
  · exact buffer.backspace
  have free : s.e - s.r < UInt32.ofNat INPUT_BUF_SIZE ↔ s.line.length < INPUT_BUF_SIZE := by
    rw [length_line, ← buffer.size_re, UInt32.lt_iff_toNat_lt]
    rfl
  by_cases may : c ≠ 0 ∧ s.line.length < INPUT_BUF_SIZE
  · rw [if_pos may, if_pos ⟨may.1, free.mpr may.2⟩]
    refine buffer.store ?_
    rw [← length_line]
    exact may.2
  · rw [if_neg may, if_neg fun h => may ⟨h.1, free.mp h.2⟩]
    exact buffer.unchanged

end Buffer

/-! ## The readers -/

/-- Program points at which a process holds `cons.lock`. -/
def Pc.holds : Pc → Bool
  | .loop _ _ | .release _ _ _ => true
  | _ => false

/-- What a process has copied: no ctrl-D, no newline but as the last, and not more than it wants. -/
def Pc.Fine : Pc → Prop
  | .user => True
  | .wait n got | .loop n got => got.length ≤ n.toNat ∧ ∀ c ∈ got, c ≠ ctrlD ∧ c ≠ newline
  | .release n got stop => got.length ≤ n.toNat ∧ (∀ c ∈ got, c ≠ ctrlD) ∧
      (∀ c ∈ got.dropLast, c ≠ newline) ∧ (stop = .count → got.length = n.toNat) ∧
      (stop = .newline → got.getLast? = some newline)

/-- Why a process leaves the loop, as long as it holds the lock. -/
def Pc.Why (l : Line) (h : History) : Pc → Prop
  | .release _ got .ctrlD =>
    if got = [] then h.consumed.getLast? = some ctrlD else l.committed.head? = some ctrlD
  | .release _ _ .fault => h.failed = true
  | _ => True

/-- The process is in the call of this argument, and has copied these bytes in it. -/
def Pc.Has (call : Int × List UInt8) : Pc → Prop
  | .user => True
  | .wait n got | .loop n got | .release n got _ => call = (n, got)

structure Sound (s : State) (h : History) : Prop where
  held : Monitor.Held Pc.holds s.lock s.pc
  buffer : Buffer s
  content : h.committed = h.consumed ++ s.line.committed
  exact : h.failed = false → h.delivered = h.consumed.filter (· ≠ ctrlD)
  fine : ∀ p, (s.pc p).Fine
  why : ∀ p, (s.pc p).Why s.line h
  calls : ∀ p, (s.pc p).Has (h.calls p)

section Readers

variable {s s' : State} {h h' : History} {p : Slot} {pc' : Pc} {c : UInt8}
  {calls : Slot → Int × List UInt8}

theorem Pc.why_of_out {pc : Pc} (out : pc.holds = false) : pc.Why l h := by
  cases pc with
  | release => cases out
  | _ => trivial

theorem Sound.input (sound : Sound s h) (free : s.lock = none) (c : UInt8) :
    Sound (consoleintr s c).1 (h.note (.input c, (consoleintr s c).2)) := by
  have edits := sound.buffer.consoleintr c
  have same : (consoleintr s c).1.lock = s.lock ∧ (consoleintr s c).1.pc = s.pc ∧
      (h.note (.input c, (consoleintr s c).2)) =
        { h with committed := h.committed ++ Effect.bytes (consoleintr s c).2 } := by
    unfold consoleintr store
    dsimp only
    split_ifs <;> simp [History.note, Effect.bytes]
  obtain ⟨lock, pcs, history⟩ := same
  rw [history]
  refine ⟨by rw [lock, pcs]; exact sound.held, edits.buffer, ?_, sound.exact, ?_, fun p => ?_,
    by rw [pcs]; exact sound.calls⟩
  · rw [edits.line, edits.committed, sound.content, List.append_assoc]
  · rw [pcs]
    exact sound.fine
  refine Pc.why_of_out (Bool.eq_false_iff.mpr fun inside => ?_)
  rw [pcs] at inside
  have has := sound.held p inside
  rw [free] at has
  cases has

theorem Sound.has_update (sound : Sound s h) (others : ∀ q, q ≠ p → calls q = h.calls q)
    (has : pc'.Has (calls p)) : ∀ q, (update s.pc p pc' q).Has (calls q) := by
  rw [forall_update_iff _ fun q pc => Pc.Has (calls q) pc]
  refine ⟨has, fun q other => ?_⟩
  rw [others q other]
  exact sound.calls q

theorem Sound.goes (sound : Sound s h) (held : Monitor.Held Pc.holds lock (update s.pc p pc'))
    (fine : pc'.Fine) (why : pc'.Why s.line h) (others : ∀ q, q ≠ p → calls q = h.calls q)
    (has : pc'.Has (calls p)) : Sound ((s.setLock lock).setPc p pc') { h with calls := calls } where
  held := held
  buffer := ⟨sound.buffer.room, sound.buffer.plain⟩
  content := sound.content
  exact := sound.exact
  fine := Monitor.forall_goes (K := Pc.Fine) sound.fine fine
  why := Monitor.forall_goes (K := Pc.Why s.line h) sound.why why
  calls := sound.has_update others has

theorem Sound.takes (sound : Sound s h) (mine : s.lock = some p) (some : s.r ≠ s.w)
    (committed : h'.committed = h.committed)
    (consumed : h'.consumed = h.consumed ++ [s.buf (slot INPUT_BUF_SIZE s.r)])
    (exact : h'.failed = false → h'.delivered = h'.consumed.filter (· ≠ ctrlD)) (fine : pc'.Fine)
    (why : pc'.Why s.take.line h') (others : ∀ q, q ≠ p → h'.calls q = h.calls q)
    (has : pc'.Has (h'.calls p)) : Sound (s.take.setPc p pc') h' where
  held := sound.held.goes fun _ => mine
  buffer := by
    refine ⟨?_, sound.buffer.plain⟩
    have less := Circular.size_of_ne some
    have room := sound.buffer.room
    show size (s.r + 1) s.w + size s.w s.e ≤ INPUT_BUF_SIZE
    omega
  content := by
    have first : s.line.committed = _ :: _ := window_of_ne some
    rw [committed, consumed, sound.content, first, List.append_cons]
    rfl
  exact := exact
  fine := Monitor.forall_goes (K := Pc.Fine) sound.fine fine
  why := sound.held.all (K := Pc.Why s.take.line h') (.inl mine) Pc.why_of_out why
  calls := sound.has_update others has

theorem take_giveBack (s : State) : s.take.giveBack = s := by
  unfold State.take State.giveBack
  rw [UInt32.add_sub_cancel]

theorem fine_append (fine : (Pc.loop n got).Fine) (less : got.length < n) (notD : c ≠ ctrlD) :
    (if c = newline then Pc.release n (got ++ [c]) .newline else .loop n (got ++ [c])).Fine := by
  have length : (got ++ [c]).length ≤ n.toNat := by
    rw [List.length_append, List.length_singleton]
    omega
  have noD : ∀ d ∈ got ++ [c], d ≠ ctrlD := by
    intro d inside
    rcases List.mem_append.mp inside with old | new
    · exact (fine.2 d old).1
    · rw [List.mem_singleton.mp new]
      exact notD
  split
  · next ends =>
    refine ⟨length, noD, fun d inside => ?_, nofun, fun _ => ?_⟩
    · rw [List.dropLast_concat] at inside
      exact (fine.2 d inside).2
    · rw [List.getLast?_concat, ends]
  · next goes =>
    refine ⟨length, fun d inside => ⟨noD d inside, ?_⟩⟩
    rcases List.mem_append.mp inside with old | new
    · exact (fine.2 d old).2
    · rw [List.mem_singleton.mp new]
      exact goes

theorem fine_release (fine : (Pc.loop n got).Fine) (other : stop ≠ .newline)
    (all : stop = .count → n.toNat ≤ got.length) : (Pc.release n got stop).Fine := by
  refine ⟨fine.1, fun d inside => (fine.2 d inside).1, fun d inside => ?_, fun count => ?_, ?_⟩
  · exact (fine.2 d (List.dropLast_subset _ inside)).2
  · exact Nat.le_antisymm fine.1 (all count)
  · exact fun is => absurd is other

theorem Sound.body (sound : Sound s h) (at_ : s.pc p = .loop n got)
    (killed copies : Bool) : Sound (consolereadBody s p killed copies n got).1
      (h.note (.run p killed copies, (consolereadBody s p killed copies n got).2)) := by
  have mine := sound.held.here at_ rfl
  have fine := sound.fine p
  have has := sound.calls p
  rw [at_] at fine has
  have leaves {stop : Stop} (fine : (Pc.release n got stop).Fine)
      (why : (Pc.release n got stop).Why s.line h) : Sound (s.setPc p (.release n got stop)) h :=
    sound.goes (sound.held.goes fun _ => mine) fine why (fun _ _ => rfl) has
  unfold consolereadBody
  by_cases more : got.length < n
  · rw [if_pos more]
    by_cases empty : s.r = s.w
    · rw [if_pos empty]
      cases killed with
      | true => exact leaves (fine_release fine (by rintro ⟨⟩) (by rintro ⟨⟩)) trivial
      | false => exact sound.goes (sound.held.release mine rfl) fine trivial (fun _ _ => rfl) has
    rw [if_neg empty]
    by_cases marker : s.buf (slot INPUT_BUF_SIZE s.r) = ctrlD
    · rw [if_pos marker]
      by_cases first : 0 < got.length
      · rw [if_pos first, take_giveBack]
        refine leaves (fine_release fine (by rintro ⟨⟩) (by rintro ⟨⟩)) ?_
        have next : s.line.committed = _ :: _ := window_of_ne empty
        show if got = [] then _ else _
        rw [if_neg (List.ne_nil_of_length_pos first), next, List.head?_cons, marker]
      · rw [if_neg first]
        have nothing : got = [] := List.length_eq_zero_iff.mp (Nat.le_zero.mp (Nat.not_lt.mp first))
        refine sound.takes mine empty rfl ?_ (fun good => ?_)
          (fine_release fine (by rintro ⟨⟩) (by rintro ⟨⟩)) ?_ (fun _ _ => rfl) has
        · rw [marker]
          rfl
        · show h.delivered = (h.consumed ++ [ctrlD]).filter _
          rw [List.filter_append, sound.exact good]
          exact (List.append_nil _).symm
        · show if got = [] then _ else _
          rw [if_pos nothing]
          exact List.getLast?_concat
    · rw [if_neg marker]
      cases copies with
      | true =>
        rw [if_pos rfl]
        refine sound.takes mine empty rfl rfl (fun good => ?_) (fine_append fine more marker) ?_
          (fun q other => update_of_ne other ..) ?_
        · show h.delivered ++ _ = (h.consumed ++ _).filter _
          have kept : [s.buf (slot INPUT_BUF_SIZE s.r)].filter (· ≠ ctrlD) =
              [s.buf (slot INPUT_BUF_SIZE s.r)] := by
            simp [marker]
          rw [List.filter_append, ← sound.exact good, kept]
        · split <;> trivial
        · have more : (h.note (.run p killed true, some (.delivered p
              (s.buf (slot INPUT_BUF_SIZE s.r))))).calls p = _ := update_self ..
          rw [more, show h.calls p = _ from has]
          split <;> rfl
      | false =>
        exact sound.takes mine empty rfl rfl (by rintro ⟨⟩)
          (fine_release fine (by rintro ⟨⟩) (by rintro ⟨⟩)) rfl (fun _ _ => rfl) has
  · rw [if_neg more]
    refine leaves (fine_release fine (by rintro ⟨⟩) fun _ => ?_) trivial
    omega

theorem Sound.step (sound : Sound s h) (step : Step s a s' e) : Sound s' (h.note (a, e)) := by
  cases step with
  | input free => exact sound.input free _
  | read =>
    exact sound.goes (sound.held.goes nofun) ⟨Nat.zero_le _, nofun⟩ trivial
      (fun q other => update_of_ne other ..) (update_self ..)
  | @lock p _ _ _ _ at_ free =>
    have fine := sound.fine p
    have has := sound.calls p
    rw [at_] at fine has
    exact sound.goes (sound.held.acquire free) fine trivial (fun _ _ => rfl) has
  | body at_ => exact sound.body at_ _ _
  | release at_ =>
    have mine := sound.held.here at_ rfl
    exact sound.goes (sound.held.release mine rfl) trivial trivial (fun _ _ => rfl) trivial

theorem Step.returned (step : Step s a s' e) (shows : e = some (.returned p n got stop)) :
    s.pc p = .release n got stop := by
  cases step with
  | @input c =>
    unfold consoleintr store at shows
    dsimp only at shows
    split_ifs at shows <;> cases shows
  | @body p' killed copies n' got' =>
    unfold consolereadBody at shows
    dsimp only at shows
    split_ifs at shows <;> cases shows
  | release at_ =>
    cases shows
    exact at_
  | _ => cases shows

end Readers

theorem Sound.of_reachable (reach : traced.Reachable x) : Sound x.1 x.2 := by
  refine reach.invariant (P := fun x => Sound x.1 x.2) ?_ ?_
  · rintro ⟨s, h⟩ ⟨rfl, rfl⟩
    refine ⟨nofun, ⟨by decide, ?_⟩, ?_, fun _ => rfl, fun _ => trivial, fun _ => trivial,
      fun _ => trivial⟩
    · exact nofun
    · rfl
  · rintro ⟨s, h⟩ ⟨a, e⟩ ⟨s', h'⟩ sound ⟨step, rfl⟩
    exact sound.step (Step.of_exec step)

/-- A line is typed and read, and then a character and a ctrl-D. -/
def session : List Action :=
  [.input 104, .input 106, .input 127, .input 105, .input 13, .read 0 10] ++
    List.replicate 5 (.run 0 false true) ++ [.input 120, .input 4, .read 1 10] ++
    List.replicate 3 (.run 1 false true)

end Xv6.Console
