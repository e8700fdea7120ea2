import Xv6.Pipe.Basic

/-!
# A pipe is a queue

The history of a run has the bytes that writers have put into the pipe and the bytes that
readers have got out of it, both in the order in which that happened. The window from `nread`
to `nwrite` is what the first has more than the second.

That a reader is told about the end of the file only at the end also depends on where it is
in the code (`Pc.Eof`): what it has seen stays so, as it holds `pi->lock`.
-/

namespace Xv6.Pipe

open Circular (slot window size)
open Monitor (forall_goes)

/-- The bytes that have gone into the pipe and that have come out of it. -/
structure History where
  accepted : List UInt8 := []
  delivered : List UInt8 := []

def History.note (h : History) : Option Effect → History
  | some (.accepted _ b) => { h with accepted := h.accepted ++ [b] }
  | some (.delivered _ b) => { h with delivered := h.delivered ++ [b] }
  | _ => h

def traced : Lts (State × History) Label := system.observed {} fun h _ label => h.note label.2

/-! ## The bytes -/

/-- The window of the pipe is what has been accepted and not been delivered. -/
structure Stream (s : State) (h : History) : Prop where
  content : h.accepted = h.delivered ++ window s.data s.nread s.nwrite
  room : size s.nread s.nwrite ≤ PIPESIZE

section Stream

variable {s s' : State} {h : History} {p : Slot} {e : Option Effect} {a : Action}

theorem full_iff (s : State) :
    s.nwrite = s.nread + UInt32.ofNat PIPESIZE ↔ size s.nread s.nwrite = PIPESIZE := by
  constructor
  · intro full
    unfold size
    rw [full, UInt32.add_comm, UInt32.add_sub_cancel]
    rfl
  · exact Circular.eq_add_of_size

theorem Stream.put (stream : Stream s h) (room : s.nwrite ≠ s.nread + UInt32.ofNat PIPESIZE)
    (ch : UInt8) : Stream (s.put ch) { h with accepted := h.accepted ++ [ch] } := by
  have below : size s.nread s.nwrite < PIPESIZE :=
    Nat.lt_of_le_of_ne stream.room fun full => room ((full_iff s).mpr full)
  have small : PIPESIZE < 2 ^ 32 := by decide
  refine ⟨?_, ?_⟩
  · calc h.accepted ++ [ch] = h.delivered ++ (window s.data s.nread s.nwrite ++ [ch]) := by
          rw [stream.content, List.append_assoc]
      _ = _ := by rw [← Circular.window_push (by decide) small below]; rfl
  · show size s.nread (s.nwrite + 1) ≤ PIPESIZE
    rw [Circular.size_succ (by omega)]
    exact below

theorem Stream.get (stream : Stream s h) (some : s.nread ≠ s.nwrite) :
    Stream s.advance { h with delivered := h.delivered ++ [s.data (slot PIPESIZE s.nread)] } := by
  refine ⟨?_, ?_⟩
  · calc h.accepted = h.delivered ++ window s.data s.nread s.nwrite := stream.content
      _ = _ := by rw [Circular.window_of_ne some, List.append_cons]; rfl
  · have less := Circular.size_of_ne some
    have room := stream.room
    show size (s.nread + 1) s.nwrite ≤ PIPESIZE
    omega

theorem RunStep.stream (run : RunStep s p s' e) (stream : Stream s h) : Stream s' (h.note e) := by
  cases run with
  | @put n i put ch _ _ room =>
    have next := stream.put room ch
    exact ⟨next.content, next.room⟩
  | get _ some =>
    have next := stream.get some
    exact ⟨next.content, next.room⟩
  | _ => exact ⟨stream.content, stream.room⟩

theorem Step.stream (step : Step s a s' e) (stream : Stream s h) : Stream s' (h.note e) := by
  cases step with
  | run _ run => exact run.stream stream
  | _ => exact ⟨stream.content, stream.room⟩

end Stream

/-! ## The end of the file -/

/-- There is nothing to read, and nothing will come. -/
def State.AtEnd (s : State) : Prop := s.nread = s.nwrite ∧ s.writeopen = false

/-- A `piperead` that is about to return 0 has found the end. -/
def Result.Eof (atEnd : Prop) : Result → Prop
  | .read n ret => 0 < n → ret = 0 → atEnd
  | _ => True

def After.Eof (atEnd : Prop) : After → Prop
  | .release r => r.Eof atEnd
  | .sleep _ => True

/-- What a process in `piperead` knows about the end. -/
def Pc.Eof (s : State) : Pc → Prop
  | .copying _ i => i = 0 → s.nread = s.nwrite → s.writeopen = false
  | .wakeup _ _ next => next.Eof s.AtEnd
  | .release r => r.Eof s.AtEnd
  | _ => True

section Eof

variable {s s' : State} {p : Slot} {pc pc' : Pc} {e : Option Effect} {a : Action}

theorem Pc.eof_of_out (out : pc.holds = false) : pc.Eof s := by
  cases pc with
  | copying | wakeup | release => cases out
  | _ => trivial

theorem RunStep.eof (run : RunStep s p s' e) (held : Held s) (eof : ∀ q, (s.pc q).Eof s) :
    ∀ q, (s'.pc q).Eof s' := by
  have here := eof p
  cases run with
  | @lock pc' spins free =>
    refine held.all (K := Pc.Eof s) (.inr free) Pc.eof_of_out ?_
    cases at_ : s.pc p with
    | reacquire k =>
      rw [at_] at spins
      cases k <;> cases spins <;> trivial
    | _ =>
      rw [at_] at spins
      cases spins
      try trivial
  | gaveUp | full | wrote | readSleep | sleepEnter => exact forall_goes (K := Pc.Eof s) eof trivial
  | @put n i put ch at_ =>
    exact held.all (K := Pc.Eof (s.put ch)) (.inl (held.here at_ rfl)) Pc.eof_of_out trivial
  | readKilled => exact forall_goes (K := Pc.Eof s) eof nofun
  | readStart _ ended => exact forall_goes (K := Pc.Eof s) eof fun _ => ended
  | get at_ => exact held.all (K := Pc.Eof s.advance) (.inl (held.here at_ rfl)) Pc.eof_of_out nofun
  | readDone at_ found =>
    rw [at_] at here
    refine forall_goes (K := Pc.Eof s) eof fun positive zero => ?_
    obtain ⟨first, empty⟩ := found positive zero
    exact ⟨empty, here first empty⟩
  | close _ free => exact held.all (K := Pc.Eof (s.shut _)) (.inr free) Pc.eof_of_out trivial
  | wakeupSelf at_ | wakeupOther at_ =>
    rw [at_] at here
    exact forall_goes (K := Pc.Eof s) eof here
  | @wakeupDone c next j at_ =>
    rw [at_] at here
    cases next with
    | sleep k => exact forall_goes (K := Pc.Eof s) eof trivial
    | release r => exact forall_goes (K := Pc.Eof s) eof here
  | sleepHeld at_ => exact forall_goes (K := Pc.Eof s) eof trivial
  | sleepFree | resumed => exact forall_goes (K := Pc.Eof s) eof trivial
  | release at_ => exact forall_goes (K := Pc.Eof s) eof trivial

theorem Step.eof (step : Step s a s' e) (held : Held s) (eof : ∀ q, (s.pc q).Eof s) :
    ∀ q, (s'.pc q).Eof s' := by
  cases step with
  | @call p c =>
    refine forall_goes (K := Pc.Eof s) eof ?_
    cases c <;> trivial
  | run _ run => exact run.eof held eof
  | _ => exact eof

end Eof

structure Fifo (x : State × History) : Prop where
  held : Held x.1
  stream : Stream x.1 x.2
  eof : ∀ p, (x.1.pc p).Eof x.1

theorem Fifo.of_reachable (reach : traced.Reachable x) : Fifo x := by
  refine reach.invariant ?_ ?_
  · rintro ⟨s, h⟩ ⟨⟨data, procs, -, rfl⟩, rfl⟩
    have empty : [] = [] ++ window data 0 0 := by rw [Circular.window_self, List.append_nil]
    have room : size 0 0 ≤ PIPESIZE := by decide
    exact ⟨nofun, ⟨empty, room⟩, fun _ => trivial⟩
  · rintro ⟨s, h⟩ ⟨a, e⟩ ⟨s', h'⟩ fifo ⟨step, rfl⟩
    have step := Step.of_exec step
    exact ⟨step.held fifo.held, step.stream fifo.stream, step.eof fifo.held fifo.eof⟩

/-- The bytes delivered are the first of those accepted, and the at most `PIPESIZE` others are
the window of the pipe. A `piperead` of `n > 0` bytes returns 0 only if the write end is closed
and all bytes have been delivered. -/
theorem pipe_is_fifo {x : State × History} (reach : traced.Reachable x) :
    x.2.delivered <+: x.2.accepted ∧
    x.2.accepted = x.2.delivered ++ window x.1.data x.1.nread x.1.nwrite ∧
    (window x.1.data x.1.nread x.1.nwrite).length = (x.1.nwrite - x.1.nread).toNat ∧
    (x.1.nwrite - x.1.nread).toNat ≤ PIPESIZE ∧
    ∀ a p n y, traced.step x (a, some (.returned p (.read n 0))) y → 0 < n →
      x.1.writeopen = false ∧ x.2.delivered = x.2.accepted := by
  have fifo := Fifo.of_reachable reach
  refine ⟨⟨_, fifo.stream.content.symm⟩, fifo.stream.content, Circular.length_window _ _ _,
    fifo.stream.room, ?_⟩
  rintro a p n ⟨s', h'⟩ ⟨step, -⟩ positive
  -- only the release of the lock shows the result
  have eof := fifo.eof p
  cases Step.of_exec step with
  | run _ run =>
    cases run with
    | release at_ =>
      rw [at_] at eof
      obtain ⟨empty, closed⟩ := eof positive rfl
      refine ⟨closed, ?_⟩
      rw [fifo.stream.content, empty, Circular.window_self, List.append_nil]

/-- A process writes two bytes and closes the write end. Another reads them, and its second
`piperead` gets the end of the file. -/
def closing : List Action :=
  [.call 0 (.write 2), .run 0 none, .run 0 (some 7), .run 0 (some 8), .run 0 none] ++
    List.replicate (NPROC + 2) (.run 0 none) ++ [.call 0 (.close true)] ++
    List.replicate (NPROC + 3) (.run 0 none) ++
    [.call 1 (.read 5), .run 1 none, .run 1 none, .run 1 (some 0), .run 1 (some 0)] ++
    List.replicate (NPROC + 3) (.run 1 none) ++
    [.call 1 (.read 5), .run 1 none, .run 1 none, .run 1 none] ++
    List.replicate (NPROC + 1) (.run 1 none)

theorem pipe_is_fifo_closing : ∃ x y, traced.Reachable x ∧ x.2.accepted = [7, 8] ∧
    traced.step x (.run 1 none, some (.returned 1 (.read 5 0))) y ∧ x.1.writeopen = false ∧
    x.2.delivered = x.2.accepted := by
  obtain ⟨x, reach, accepted, next⟩ : ∃ x, traced.Reachable x ∧ x.2.accepted = [7, 8] ∧
      (exec x.1 (.run 1 none)).map Prod.snd = some (some (.returned 1 (.read 5 0))) :=
    Lts.exists_of_replay (fun _ _ => True) running_start closing (by decide +kernel)
  obtain ⟨⟨s', e⟩, step, rfl⟩ := Option.map_eq_some_iff.mp next
  have ended := (pipe_is_fifo reach).2.2.2.2 _ 1 5 (s', _) ⟨step, rfl⟩ (by decide)
  exact ⟨x, (s', _), reach, accepted, ⟨step, rfl⟩, ended⟩

end Xv6.Pipe
