import Xv6.Sched.Step

/-!
# No process runs on two CPUs

Besides the invariant, every run keeps a record of the CPU that runs each process, from the moment
it loads the context until it has saved the context and released the process's lock. A CPU that
switches to a process finds no such record.
-/

namespace Xv6.Sched

open Function

variable {n : Nat} {s s' s1 : State n} {c : Fin n} {p q t : Slot} {code : Code} {job : Job}
  {choice : Choice} {effect : Option Effect} {pc : Pc}

/-! ## Who ran a process last -/

/-- The process whose thread the CPU executes, its context not saved yet. -/
def Code.live : Code → Option Slot
  | .thread t pc => if pc = .saved then none else some t
  | .scan | .check _ | .picked _ | .current _ | .load _ | .back _ | .finish _ | .wake _ _
  | .woken _ => none

/-- The process that has run on the CPU, its context saved and its lock still held. -/
def Code.gone : Code → Option Slot
  | .thread t pc => if pc = .saved then some t else none
  | .back p | .finish p => some p
  | .scan | .check _ | .picked _ | .current _ | .load _ | .wake _ _ | .woken _ => none

theorem Code.leaves_of_gone (gone : code.gone = some p) : code.leaves = some p := by
  cases code with
  | back | finish => exact gone
  | thread t pc =>
    cases pc with
    | saved => exact gone
    | _ => cases gone
  | _ => cases gone

theorem Code.runs_or_leaves_of_live (live : code.live = some p) :
    code.runs = some p ∨ code.leaves = some p := by
  cases code with
  | thread t pc =>
    cases pc with
    | saved => cases live
    | sched => exact .inr live
    | _ => exact .inl live
  | _ => cases live

theorem Code.gone_of_live (live : code.live = some p) : code.gone = none := by
  cases code with
  | thread t pc =>
    cases pc with
    | saved => cases live
    | _ => rfl
  | _ => cases live

/-- What a step shows of the code of its CPU. -/
def Shown (before after : Code) : Option Effect → Prop
  | none => after.live = before.live ∧ after.gone = before.gone
  | some (.switched p) => before = .load p ∧ after.live = some p
  | some (.saved p) => before.live = some p ∧ after.gone = some p
  | some (.released p) => before = .finish p

theorem State.goto_self : ((s.goto c code).cpus c).code = code := by
  simp [State.goto]

theorem State.goto_other (other : c' ≠ c) : (s.goto c code).cpus c' = s.cpus c' :=
  update_of_ne other ..

/-- A step takes CPU `c` to `code` and leaves the others where they are. -/
structure Takes (s s' : State n) (c : Fin n) (code : Code) : Prop where
  self : (s'.cpus c).code = code
  others : ∀ c', c' ≠ c → (s'.cpus c').code = (s.cpus c').code

theorem Takes.goto (cpus : ∀ c', c' ≠ c → s1.cpus c' = s.cpus c') :
    Takes s (s1.goto c code) c code := by
  refine ⟨State.goto_self, fun c' other => ?_⟩
  rw [State.goto_other other, cpus c' other]

theorem Takes.acquire (step : s.acquire c q code = some s') : Takes s s' c code := by
  unfold State.acquire at step
  split at step <;> cases step
  exact .goto fun _ _ => rfl

theorem Resume.entry_ne_saved (resume : Resume) : resume.entry ≠ .saved := by
  cases resume <;> exact nofun

theorem scheduler_shows (step : scheduler s c code choice = some (s', effect)) :
    ∃ after, Takes s s' c after ∧ Shown code after effect := by
  unfold Sched.scheduler at step
  split at step
  · obtain ⟨s1, acquired, ⟨⟩⟩ := Option.map_eq_some_iff.mp step
    exact ⟨_, .acquire acquired, rfl, rfl⟩
  · split at step <;> cases step <;> exact ⟨_, .goto fun _ _ => rfl, rfl, rfl⟩
  · cases step
    exact ⟨_, .goto fun _ other => update_of_ne other .., rfl, rfl⟩
  · cases step
    exact ⟨_, .goto fun _ other => update_of_ne other .., rfl, rfl⟩
  · next p =>
    cases step
    refine ⟨_, .goto fun _ _ => rfl, rfl, ?_⟩
    simp [Code.live, (s.context p).entry_ne_saved]
  · cases step
    exact ⟨_, .goto fun _ other => update_of_ne other .., rfl, rfl⟩
  · cases step
    exact ⟨_, .goto fun _ _ => rfl, rfl⟩
  · obtain ⟨s1, acquired, ⟨⟩⟩ := Option.map_eq_some_iff.mp step
    exact ⟨_, .acquire acquired, rfl, rfl⟩
  · cases step
    exact ⟨_, .goto fun _ _ => rfl, rfl, rfl⟩
  · cases step
    exact ⟨_, .goto fun _ _ => rfl, rfl, rfl⟩
  · cases step

theorem Job.run_cpus : (job.run s p q).cpus = s.cpus := by
  cases job with
  | wakeup | start => rfl
  | kkill | reap =>
    simp only [Job.run]
    split <;> rfl
  | alloc ok =>
    simp only [Job.run]
    split
    · cases ok <;> rfl
    · rfl

theorem thread_shows (context : (s.cpus c).context = some t)
    (step : thread s c t t pc choice = some (s', effect)) :
    ∃ after, Takes s s' c after ∧ Shown (.thread t pc) after effect := by
  have acquire : ∀ {q pc'}, (s.acquire c q (.thread t pc')).map (·, none) = some (s', effect) →
      pc = .body → pc' ≠ .saved →
      ∃ after, Takes s s' c after ∧ Shown (.thread t pc) after effect := by
    rintro q pc' taken rfl other
    obtain ⟨s1, acquired, ⟨⟩⟩ := Option.map_eq_some_iff.mp taken
    refine ⟨_, .acquire acquired, ?_⟩
    simp [Shown, Code.live, Code.gone, other]
  unfold Sched.thread at step
  split at step
  -- a step that takes no lock moves this CPU only
  any_goals (cases step; exact ⟨_, .goto fun _ _ => rfl, rfl, rfl⟩)
  · exact acquire step rfl nofun
  · exact acquire step rfl nofun
  · split at step
    · cases step
    · exact acquire step rfl nofun
  · split at step
    · exact acquire step rfl nofun
    · cases step
  · split at step <;> cases step
    exact ⟨_, .goto fun _ _ => rfl, rfl, rfl⟩
  · rw [context] at step
    cases step
    exact ⟨_, .goto fun _ _ => rfl, rfl, rfl⟩
  · cases step
    exact ⟨_, .goto fun c' _ => congrFun Job.run_cpus c', rfl, rfl⟩
  · cases step

theorem Inv.shows (inv : Inv s) (step : exec s (c, choice) = some (s', effect)) :
    ∃ after, Takes s s' c after ∧ Shown (s.cpus c).code after effect := by
  unfold exec at step
  dsimp only at step
  split at step
  · next t pc at_ =>
    have away := inv.away c t (by rw [at_]; rfl)
    rw [inv.proc c, at_] at step
    rw [at_]
    exact thread_shows away step
  · exact scheduler_shows step

variable {ran : Ran n}

/-- The record is kept while a CPU is in a process or has not released its lock. -/
structure Recorded (s : State n) (ran : Ran n) : Prop where
  live : ∀ p c, ran p = some (c, false) → (s.cpus c).code.live = some p
  gone : ∀ p c, ran p = some (c, true) → (s.cpus c).code.gone = some p

theorem Recorded.of_others (recorded : Recorded s ran) (takes : Takes s s' c after)
    (live : ∀ p, ran' p = some (c, false) → after.live = some p)
    (gone : ∀ p, ran' p = some (c, true) → after.gone = some p)
    (others : ∀ p c' b, c' ≠ c → ran' p = some (c', b) → ran p = some (c', b)) :
    Recorded s' ran' := by
  refine ⟨fun p c' at_ => ?_, fun p c' at_ => ?_⟩
  · by_cases here : c' = c
    · rw [here] at at_ ⊢
      rw [takes.self]
      exact live p at_
    · rw [takes.others c' here]
      exact recorded.live p c' (others p c' false here at_)
  · by_cases here : c' = c
    · rw [here] at at_ ⊢
      rw [takes.self]
      exact gone p at_
    · rw [takes.others c' here]
      exact recorded.gone p c' (others p c' true here at_)

theorem update_eq_some {β : Type} {f : Slot → Option β} {v : Option β} {b : β}
    (at_ : update f q v p = some b) : p = q ∧ v = some b ∨ p ≠ q ∧ f p = some b := by
  by_cases same : p = q
  · rw [same, update_self] at at_
    exact .inl ⟨same, at_⟩
  · rw [update_of_ne same] at at_
    exact .inr ⟨same, at_⟩

/-- The record of `q` is written, with nothing else on record for the CPU. -/
theorem Recorded.update {v : Option (Fin n × Bool)} (recorded : Recorded s ran)
    (takes : Takes s s' c after) (mine : ∀ p b, ran p = some (c, b) → p = q)
    (own : ∀ c' b, v = some (c', b) → c' = c) (live : v = some (c, false) → after.live = some q)
    (gone : v = some (c, true) → after.gone = some q) : Recorded s' (update ran q v) := by
  refine recorded.of_others takes ?_ ?_ ?_
  · intro p at_
    rcases update_eq_some at_ with ⟨rfl, new⟩ | ⟨other, old⟩
    · exact live new
    · exact absurd (mine p false old) other
  · intro p at_
    rcases update_eq_some at_ with ⟨rfl, new⟩ | ⟨other, old⟩
    · exact gone new
    · exact absurd (mine p true old) other
  · intro p c' b other at_
    rcases update_eq_some at_ with ⟨-, new⟩ | ⟨-, old⟩
    · exact absurd (own c' b new) other
    · exact old

theorem Recorded.noted {v : Option (Fin n × Bool)} {last : Bool} (recorded : Recorded s ran)
    (takes : Takes s s' c after) (mine : ∀ p b, ran p = some (c, b) → p = q ∧ b = last)
    (own : ∀ c' b, v = some (c', b) → c' = c) (live : v = some (c, false) → after.live = some q)
    (gone : v = some (c, true) → after.gone = some q) :
    Recorded s' (if ran q = some (c, last) then Function.update ran q v else ran) := by
  split
  · exact recorded.update takes (fun p b at_ => (mine p b at_).1) own live gone
  · next unrecorded =>
    have idle : ∀ p b, ran p ≠ some (c, b) := by
      intro p b at_
      obtain ⟨rfl, rfl⟩ := mine p b at_
      exact unrecorded at_
    exact recorded.of_others takes (fun p at_ => absurd at_ (idle p false))
      (fun p at_ => absurd at_ (idle p true)) fun _ _ _ _ same => same

theorem Recorded.step (recorded : Recorded s ran) {after : Code} (takes : Takes s s' c after)
    (shown : Shown (s.cpus c).code after effect) :
    Recorded s' (note ran s ((c, choice), effect)) := by
  -- what is on record for CPU `c` is what it is in
  have only : ∀ {p b}, ran p = some (c, b) →
      b = false ∧ (s.cpus c).code.live = some p ∨ b = true ∧ (s.cpus c).code.gone = some p := by
    intro p b at_
    cases b with
    | false => exact .inl ⟨rfl, recorded.live p c at_⟩
    | true => exact .inr ⟨rfl, recorded.gone p c at_⟩
  match effect with
  | none =>
    refine recorded.of_others takes ?_ ?_ fun _ _ _ _ same => same
    · intro p at_
      rw [shown.1]
      exact recorded.live p c at_
    · intro p at_
      rw [shown.2]
      exact recorded.gone p c at_
  | some (.switched q) =>
    obtain ⟨before, now⟩ := shown
    have idle : ∀ p b, ran p ≠ some (c, b) := by
      intro p b at_
      have busy := only at_
      rw [before] at busy
      rcases busy with ⟨-, ⟨⟩⟩ | ⟨-, ⟨⟩⟩
    exact recorded.update takes (fun p b at_ => absurd at_ (idle p b)) (by rintro _ _ ⟨⟩; rfl)
      (fun _ => now) nofun
  | some (.saved q) =>
    obtain ⟨before, now⟩ := shown
    refine recorded.noted takes (fun p b at_ => ?_) (by rintro _ _ ⟨⟩; rfl) nofun fun _ => now
    rcases only at_ with ⟨rfl, live⟩ | ⟨-, gone⟩
    · exact ⟨Option.some.inj (live.symm.trans before), rfl⟩
    · rw [Code.gone_of_live before] at gone
      cases gone
  | some (.released q) =>
    have before : (s.cpus c).code = .finish q := shown
    refine recorded.noted takes (fun p b at_ => ?_) nofun nofun nofun
    have busy := only at_
    rw [before] at busy
    rcases busy with ⟨-, ⟨⟩⟩ | ⟨rfl, same⟩
    exact ⟨(Option.some.inj same).symm, rfl⟩

theorem Inv.reachable (reach : (observed n).Reachable x) : Inv x.1 ∧ Recorded x.1 x.2 := by
  apply reach.invariant (P := fun x => Inv x.1 ∧ Recorded x.1 x.2)
  · rintro ⟨s, ran⟩ ⟨start, none⟩
    rw [show s = Sched.boot n from start, show ran = fun _ => Option.none from none]
    exact ⟨Inv.boot, nofun, nofun⟩
  · rintro ⟨s, ran⟩ ⟨⟨c, choice⟩, effect⟩ ⟨s', ran'⟩ ⟨inv, recorded⟩ ⟨step, rfl⟩
    obtain ⟨after, takes, shown⟩ := inv.shows step
    exact ⟨inv.step step, recorded.step takes shown⟩

theorem Inv.apart (inv : Inv s) (here : (s.cpus c).code.runs = some p) :
    (s.cpus c').code.leaves ≠ some p := by
  intro there
  exact inv.leaves c' p there ((inv.running p).mpr ⟨c, here⟩)

theorem runs_on_one_cpu (n : Nat) (x : State n × Ran n) (reach : (observed n).Reachable x) :
    Exclusive x.1 x.2 := by
  obtain ⟨inv, recorded⟩ := Inv.reachable reach
  have current : ∀ c c' p, (x.1.cpus c).proc = some p → (x.1.cpus c').proc = some p → c = c' := by
    intro c c' p here there
    rw [inv.proc] at here there
    rcases Code.runs_or_leaves here with here | here <;>
      rcases Code.runs_or_leaves there with there | there
    · exact inv.once c c' p here there
    · exact absurd there (inv.apart here)
    · exact absurd here (inv.apart there)
    · exact inv.lock_inj (Code.holds_of_leaves here) (Code.holds_of_leaves there)
  refine ⟨current, ?_, ?_⟩
  · intro p running
    obtain ⟨c, runs⟩ := (inv.running p).mp running
    rcases Code.proc_or_picked runs with at_ | picked
    · have here : (x.1.cpus c).proc = some p := (inv.proc c).trans at_
      exact .inl ⟨c, here, fun c' there => current c' c p there here⟩
    · refine .inr ⟨c, (inv.lock p c).mpr ?_, picked⟩
      rw [picked]
      rfl
  · intro c choice s' p step
    obtain ⟨after, -, before, -⟩ := inv.shows step
    have here : (x.1.cpus c).code.runs = some p := by
      rw [before]
      rfl
    refine ⟨?_, (inv.lock p c).mpr (by rw [before]; rfl)⟩
    cases ran : x.2 p with
    | none => rfl
    | some at_ =>
      obtain ⟨c', saved⟩ := at_
      cases saved with
      | false =>
        have live := recorded.live p c' ran
        rcases Code.runs_or_leaves_of_live live with there | there
        · rw [inv.once c' c p there here, before] at live
          cases live
        · exact absurd there (inv.apart here)
      | true =>
        exact absurd (Code.leaves_of_gone (recorded.gone p c' ran)) (inv.apart here)

/-- CPU 0 runs the first process, which yields, and CPU 1 runs it next. -/
def handover : List (Fin 2 × Choice) :=
  [(0, .acquire 0), (0, .next), (0, .next), (0, .next), (0, .next), (0, .next), (0, .yield),
    (0, .next), (0, .next), (0, .next), (0, .next), (0, .next),
    (1, .acquire 0), (1, .next), (1, .next), (1, .next), (1, .next)]

theorem runs_on_one_cpu_handover : ∃ x, (observed 2).Reachable x ∧
    (x.1.cpus 0).proc = none ∧ (x.1.cpus 1).proc = some 0 ∧ Exclusive x.1 x.2 := by
  obtain ⟨x, reach, first, second⟩ : ∃ x, (observed 2).Reachable x ∧ (x.1.cpus 0).proc = none ∧
      (x.1.cpus 1).proc = some 0 :=
    Lts.exists_of_replay (fun _ _ => True) (by rfl) handover (by decide +kernel)
  exact ⟨x, reach, first, second, runs_on_one_cpu 2 x reach⟩

end Xv6.Sched
