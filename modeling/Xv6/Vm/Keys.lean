import Xv6.Vm.Rows

/-!
# The keys of the segments

`sys_shmget` locks one entry of `segtable` at a time: it looks for the key in one loop over the
entries and takes an unused entry in a second one. Here the calls are interleaved at these
sections. Between its two loops a call holds no lock, and another call with the same key may
do the same; a call alone does what `shmget` does.
-/

namespace Xv6.Vm

open Function (update update_self update_of_ne)

open Outcome

/-- Where a call of `sys_shmget` is: before an entry of the first loop, or of the second. -/
inductive GetPhase
  | looking (i : Nat)
  | allocating (i : Nat)
deriving DecidableEq

/-- A call that has checked its arguments. -/
structure GetCall where
  key : Int
  npages : Int
  phase : GetPhase
deriving DecidableEq

/-- The checks at the beginning. -/
def GetCall.enter (key size : Int) : Option GetCall :=
  let npages := (wrap32 (size + (PGSIZE - 1))).tdiv PGSIZE
  if size ≤ 0 then none
  else if npages > SHM_MAXPAGES then none
  else some { key := key, npages := npages, phase := .looking 0 }

/-- The call has found an entry that is not used. -/
def GetCall.create (c : GetCall) (i : Fin NSHM) (s : State) :
    Except Panic (State × Option Nat) := do
  let (k, pages) ← allocPages c.npages.toNat [] s.kmem
  match pages with
  | none => .ok ({ s with kmem := k }, none)
  | some pages =>
    let seg : Shmseg := { key := c.key, npages := c.npages, refcnt := 0, pages := pages }
    .ok ({ s with kmem := k, segtable := update s.segtable i (some seg) }, some i)

/-- One section between `acquire` and `release`, or the end of a loop. The call goes on, or
returns an id, or -1 as `none`. -/
def GetCall.advance (c : GetCall) (s : State) : Except Panic (State × (GetCall ⊕ Option Nat)) :=
  match c.phase with
  | .looking i =>
    if h : i < NSHM then
      if (s.segtable ⟨i, h⟩).any (·.key = c.key) then .ok (s, .inr (some i))
      else .ok (s, .inl { c with phase := .looking (i + 1) })
    else .ok (s, .inl { c with phase := .allocating 0 })
  | .allocating i =>
    if h : i < NSHM then
      if (s.segtable ⟨i, h⟩).isNone then do
        let (s, value) ← c.create ⟨i, h⟩ s
        .ok (s, .inr value)
      else .ok (s, .inl { c with phase := .allocating (i + 1) })
    else .ok (s, .inr none)

/-- Processes that call `shmget`. -/
structure Getting (ι : Type) where
  state : State
  calls : ι → Option GetCall

inductive GetAct
  | enter (key size : Int)
  | advance
deriving DecidableEq

section System

variable {ι : Type} [DecidableEq ι]

/-- A step of a process, and the id a call returns with its key. A panic stops the system. -/
def execGet (g : Getting ι) (l : ι × GetAct) : Option (Getting ι × Option (Int × Nat)) :=
  match g.calls l.1, l.2 with
  | none, .enter key size =>
    some ({ g with calls := update g.calls l.1 (GetCall.enter key size) }, none)
  | some c, .advance =>
    match c.advance g.state with
    | .error _ => none
    | .ok (s, .inl c') =>
      some ({ state := s, calls := update g.calls l.1 (some c') }, none)
    | .ok (s, .inr value) =>
      some ({ state := s, calls := update g.calls l.1 none }, value.map (c.key, ·))
  | _, _ => none

/-- The keys and ids that calls have returned. -/
def noteGot (got : List (Int × Nat)) (_ : Getting ι) (l : (ι × GetAct) × Option (Int × Nat)) :
    List (Int × Nat) :=
  l.2.toList ++ got

structure GetStart (g : Getting ι) : Prop where
  unused : ∀ i, g.state.segtable i = none
  idle : ∀ p, g.calls p = none

def getting : Lts (Getting ι × List (Int × Nat)) ((ι × GetAct) × Option (Int × Nat)) :=
  (Lts.ofExec GetStart execGet).observed [] noteGot

/-- The entry is used for the key. -/
def State.HasKey (s : State) (i : Fin NSHM) (key : Int) : Prop :=
  ∃ seg, s.segtable i = some seg ∧ seg.key = key

/-- A key has one segment, and calls with the key return its id. -/
structure OneSegment (x : Getting ι × List (Int × Nat)) : Prop where
  distinct : ∀ i j key, x.1.state.HasKey i key → x.1.state.HasKey j key → i = j
  agree : ∀ key i j, (key, i) ∈ x.2 → (key, j) ∈ x.2 → i = j

end System

/-! ## Two segments with one key -/

/-- Two processes look for the key before either has made the segment. -/
def bothLook : List (Bool × GetAct) :=
  [(false, .enter 7 100), (true, .enter 7 100)] ++ List.replicate 17 (false, .advance) ++
    List.replicate 17 (true, .advance) ++ [(false, .advance), (true, .advance), (true, .advance)]

theorem same_key_two_segments :
    ¬ ∀ x : Getting Bool × List (Int × Nat), getting.Reachable x → OneSegment x := by
  intro always
  obtain ⟨x, reach, got⟩ : ∃ x : Getting Bool × List (Int × Nat), getting.Reachable x ∧
      x.2 = [(7, 1), (7, 0)] :=
    Lts.exists_of_replay (fun _ _ => True) (s := { state := tinyBoot, calls := fun _ => none })
      ⟨fun _ => rfl, fun _ => rfl⟩ bothLook (by decide +kernel)
  have same := (always x reach).agree 7 0 1
  rw [got] at same
  exact absurd (same (by decide) (by decide)) (by decide)

/-! ## What a section does -/

inductive GetCall.Advances (c : GetCall) (s : State) : State → GetCall ⊕ Option Nat → Prop
  | found (i : Fin NSHM) : c.phase = .looking i → s.HasKey i c.key →
    Advances c s s (.inr (some i))
  | next (i : Fin NSHM) : c.phase = .looking i → ¬ s.HasKey i c.key →
    Advances c s s (.inl { c with phase := .looking (i + 1) })
  | absent (i : Nat) : c.phase = .looking i → NSHM ≤ i →
    Advances c s s (.inl { c with phase := .allocating 0 })
  | taken (i : Nat) : c.phase = .allocating i →
    Advances c s s (.inl { c with phase := .allocating (i + 1) })
  | full : Advances c s s (.inr none)
  | noMemory (k : Kmem) : Advances c s { s with kmem := k } (.inr none)
  | made (i : Fin NSHM) (k : Kmem) (seg : Shmseg) : c.phase = .allocating i →
    s.segtable i = none → seg.key = c.key →
    Advances c s { s with kmem := k, segtable := update s.segtable i (some seg) }
      (.inr (some i))

theorem State.hasKey_iff (s : State) (i : Fin NSHM) (key : Int) :
    (s.segtable i).any (·.key = key) = true ↔ s.HasKey i key := by
  rw [Option.any_eq_true]
  exact ⟨fun ⟨seg, present, same⟩ => ⟨seg, present, of_decide_eq_true same⟩,
    fun ⟨seg, present, same⟩ => ⟨seg, present, decide_eq_true same⟩⟩

instance (s : State) (i : Fin NSHM) (key : Int) : Decidable (s.HasKey i key) :=
  decidable_of_iff _ (s.hasKey_iff i key)

theorem GetCall.advance_advances (c : GetCall) (s : State) :
    Ends (fun _ => True) (fun (s', next) => c.Advances s s' next) (c.advance s) := by
  unfold GetCall.advance
  split
  · next i looking =>
    split
    · next inside =>
      split
      · next found => exact .ok (.found ⟨i, inside⟩ looking ((s.hasKey_iff _ _).mp found))
      · next other =>
        exact .ok (.next ⟨i, inside⟩ looking fun has => other ((s.hasKey_iff _ _).mpr has))
    · next outside => exact .ok (.absent i looking (Nat.le_of_not_lt outside))
  · next i allocating =>
    split
    · next inside =>
      split
      · next unused =>
        have unused := Option.isNone_iff_eq_none.mp unused
        have made : Ends (fun _ => True) (fun (s', value) => c.Advances s s' (.inr value))
            (c.create ⟨i, inside⟩ s) := by
          refine (Ends.trivial _).bind fun made _ => ?_
          obtain ⟨k, pages⟩ := made
          cases pages with
          | none => exact .ok (.noMemory k)
          | some pages => exact .ok (.made ⟨i, inside⟩ k _ allocating unused rfl)
        exact made.bind fun _ done => .ok done
      · exact .ok (.taken i allocating)
    · exact .ok .full

/-! ## A call alone -/

/-- The sections of a call one after the other, at most `n` of them. -/
def GetCall.finish : Nat → GetCall → State → Except Panic (Option (State × Option Nat))
  | 0, _, _ => .ok none
  | n + 1, c, s => do
      match ← c.advance s with
      | (s, .inl c) => c.finish n s
      | (s, .inr value) => .ok (some (s, value))

section Alone

variable (s : State) (c : GetCall)

theorem drop_finRange (inside : i < NSHM) :
    (List.finRange NSHM).drop i = ⟨i, inside⟩ :: (List.finRange NSHM).drop (i + 1) := by
  rw [List.drop_eq_getElem_cons (by rw [List.length_finRange]; exact inside), List.getElem_finRange]
  rfl

/-- A loop over the table, left at the first entry with `test`. -/
theorem GetCall.finish_scan {phase : Nat → GetPhase} {test : Fin NSHM → Bool}
    {hit : Fin NSHM → Except Panic (Option (State × Option Nat))}
    (past : finish (n + 1) { c with phase := phase NSHM } s = missed)
    (here : ∀ m i (inside : i < NSHM), finish (m + 1) { c with phase := phase i } s =
      if test ⟨i, inside⟩ then hit ⟨i, inside⟩ else finish m { c with phase := phase (i + 1) } s)
    (d : Nat) : ∀ i, i + d = NSHM → finish (d + 1 + n) { c with phase := phase i } s =
      (((List.finRange NSHM).drop i).find? test).elim missed hit := by
  induction d with
  | zero =>
    rintro i rfl
    rw [List.drop_eq_nil_of_le (by rw [List.length_finRange]), Nat.zero_add, Nat.add_comm]
    exact past
  | succ d rest =>
    intro i last
    have inside : i < NSHM := by omega
    have more : d + 1 + 1 + n = (d + 1 + n) + 1 := by omega
    rw [more, here _ i inside, drop_finRange inside, List.find?_cons]
    cases test ⟨i, inside⟩ with
    | true => rfl
    | false => exact rest (i + 1) (by omega)

theorem GetCall.finish_looking (n : Nat) :
    finish (NSHM + 1 + n) { c with phase := .looking 0 } s =
      (s.findKey c.key).elim (finish n { c with phase := .allocating 0 } s)
        fun id => .ok (some (s, some id.val)) := by
  refine finish_scan s c rfl (fun m i inside => ?_) NSHM 0 rfl
  rw [finish, advance]
  dsimp only
  rw [dif_pos inside]
  split <;> rfl

theorem GetCall.finish_allocating :
    finish (NSHM + 1) { c with phase := .allocating 0 } s =
      s.unusedSeg.elim (.ok (some (s, none))) fun id => some <$> c.create id s := by
  refine finish_scan (n := 0) s c rfl (fun m i inside => ?_) NSHM 0 rfl
  rw [finish, advance]
  dsimp only
  rw [dif_pos inside]
  split
  · rw [show GetCall.create { c with phase := .allocating i } = c.create from rfl]
    cases c.create ⟨i, inside⟩ s <;> rfl
  · rfl

/-- **A call that no other interrupts does what `shmget` does.** -/
theorem shmget_eq_finish (key size : Int) :
    some <$> shmget s key size =
      match GetCall.enter key size with
      | none => .ok (some (s, none))
      | some c => c.finish (2 * NSHM + 2) s := by
  unfold shmget GetCall.enter
  dsimp only
  split
  · rfl
  split
  · rfl
  let c : GetCall := ⟨key, (wrap32 (size + (PGSIZE - 1))).tdiv PGSIZE, .looking 0⟩
  refine Eq.trans ?_ (GetCall.finish_looking s c (NSHM + 1)).symm
  rw [GetCall.finish_allocating]
  split
  · next found => rw [found]; rfl
  · next absent full => rw [absent, full]; rfl
  · next id absent unused => rw [absent, unused]; rfl

end Alone

section Runs

variable {ι : Type} {g g' : Getting ι} {p q : ι} {c : GetCall} {key : Int}

/-- No other process is in a call with the key. -/
def Getting.Sole (g : Getting ι) (p : ι) (key : Int) : Prop :=
  ∀ q, q ≠ p → ∀ c ∈ g.calls q, c.key ≠ key

/-- A call begins only when the key has a segment, or no other call with the key is going on. -/
def Getting.MayEnter (g : Getting ι) (p : ι) : GetAct → Prop
  | .enter key _ => (∃ i, g.state.HasKey i key) ∨ g.Sole p key
  | .advance => True

instance [Fintype ι] [DecidableEq ι] (g : Getting ι) (p : ι) : ∀ act, Decidable (g.MayEnter p act)
  | .enter key _ =>
    haveI : Decidable (g.Sole p key) :=
      inferInstanceAs (Decidable (∀ q, q ≠ p → ∀ c ∈ g.calls q, c.key ≠ key))
    inferInstanceAs (Decidable ((∃ i, g.state.HasKey i key) ∨ g.Sole p key))
  | .advance => .isTrue trivial

def KeysApart (g : Getting ι) (l : (ι × GetAct) × Option (Int × Nat)) : Prop :=
  g.MayEnter l.1.1 l.1.2

instance [Fintype ι] [DecidableEq ι] (g : Getting ι) (l : (ι × GetAct) × Option (Int × Nat)) :
    Decidable (KeysApart g l) :=
  inferInstanceAs (Decidable (g.MayEnter _ _))

/-- What is known in the middle of a call: a key that the call will not find has no segment, and
no other call is about to make one. -/
def Getting.Searches (g : Getting ι) (p : ι) (c : GetCall) : Prop :=
  (∃ i j, c.phase = .looking i ∧ i ≤ j.val ∧ g.state.HasKey j c.key) ∨
    (∀ j, ¬ g.state.HasKey j c.key) ∧ g.Sole p c.key

structure Keyed (x : Getting ι × List (Int × Nat)) : Prop where
  distinct : ∀ i j key, x.1.state.HasKey i key → x.1.state.HasKey j key → i = j
  got : ∀ key i, (key, i) ∈ x.2 → ∃ j : Fin NSHM, j.val = i ∧ x.1.state.HasKey j key
  searches : ∀ p c, x.1.calls p = some c → x.1.Searches p c

theorem Keyed.oneSegment (keyed : Keyed x) : OneSegment x where
  distinct := keyed.distinct
  agree key i j got got' := by
    obtain ⟨i, rfl, has⟩ := keyed.got key i got
    obtain ⟨j, rfl, has'⟩ := keyed.got key j got'
    exact congrArg Fin.val (keyed.distinct i j key has has')

theorem Getting.Sole.keep (sole : g.Sole q key)
    (calls : ∀ r c', g'.calls r = some c' → ∃ c, g.calls r = some c ∧ c.key = c'.key) :
    g'.Sole q key := by
  intro r other c' present
  obtain ⟨c, was, same⟩ := calls r c' present
  rw [← same]
  exact sole r other c was

variable [DecidableEq ι]

theorem update_calls (present : g.calls p = some c) (same : ∀ c', n = some c' → c'.key = c.key)
    (r : ι) (c' : GetCall) (after : update g.calls p n r = some c') :
    ∃ c, g.calls r = some c ∧ c.key = c'.key := by
  by_cases here : r = p
  · rw [here, update_self] at after
    exact ⟨c, here ▸ present, (same c' after).symm⟩
  · rw [update_of_ne here] at after
    exact ⟨c', after, rfl⟩

theorem Keyed.enter {got : List (Int × Nat)} (keyed : Keyed (g, got))
    (may : g.MayEnter p (.enter key size)) :
    Keyed ({ g with calls := update g.calls p (GetCall.enter key size) }, got) := by
  refine ⟨keyed.distinct, keyed.got, fun q c present => ?_⟩
  have fresh {c' : GetCall} (made : GetCall.enter key size = some c') :
      c'.key = key ∧ c'.phase = .looking 0 := by
    unfold GetCall.enter at made
    dsimp only at made
    split at made
    · cases made
    · split at made <;> cases made
      exact ⟨rfl, rfl⟩
  dsimp only at present
  by_cases here : q = p
  · subst here
    rw [update_self] at present
    obtain ⟨rfl, phase⟩ := fresh present
    by_cases exist : ∃ j, g.state.HasKey j c.key
    · obtain ⟨j, has⟩ := exist
      exact .inl ⟨0, j, phase, Nat.zero_le _, has⟩
    · refine .inr ⟨fun j has => exist ⟨j, has⟩, fun r other c' there => ?_⟩
      dsimp only at there
      rw [update_of_ne other] at there
      exact may.resolve_left exist r other c' there
  · rw [update_of_ne here] at present
    refine (keyed.searches q c present).imp_right fun ⟨absent, sole⟩ =>
      ⟨absent, fun r other c' there => ?_⟩
    dsimp only at there
    by_cases new : r = p
    · -- the new call has another key, since this one is in the middle of a call with its own
      rw [new, update_self] at there
      obtain ⟨key', _⟩ := fresh there
      rw [key']
      rintro rfl
      rcases may with ⟨j, has⟩ | alone
      · exact absent j has
      · exact alone q here c present rfl
    · rw [update_of_ne new] at there
      exact sole r other c' there

/-- The process goes on to `n`, and may have made a segment for the key that only its call has. -/
theorem Keyed.goOn {got got' : List (Int × Nat)} {s' : State} (keyed : Keyed (g, got))
    (present : g.calls p = some c) (same : ∀ c', n = some c' → c'.key = c.key)
    (distinct : ∀ i j key, s'.HasKey i key → s'.HasKey j key → i = j)
    (old : ∀ {j key}, g.state.HasKey j key → s'.HasKey j key)
    (only : ∀ {j key}, s'.HasKey j key → g.state.HasKey j key ∨ g.Sole p key)
    (returned : ∀ key i, (key, i) ∈ got' →
      (key, i) ∈ got ∨ ∃ j : Fin NSHM, j.val = i ∧ s'.HasKey j key)
    (searches : ∀ c', n = some c' → Getting.Searches ⟨s', update g.calls p n⟩ p c') :
    Keyed (⟨s', update g.calls p n⟩, got') := by
  refine ⟨distinct, fun key i mem => ?_, fun q c' after => ?_⟩
  · rcases returned key i mem with before | now
    · obtain ⟨j, rfl, has⟩ := keyed.got key i before
      exact ⟨j, rfl, old has⟩
    · exact now
  · dsimp only at after
    by_cases here : q = p
    · subst here
      rw [update_self] at after
      exact searches c' after
    · rw [update_of_ne here] at after
      rcases keyed.searches q c' after with ⟨i, j, phase, le, has⟩ | ⟨absent, sole⟩
      · exact .inl ⟨i, j, phase, le, old has⟩
      · refine .inr ⟨fun j has => ?_, sole.keep (update_calls present same)⟩
        rcases only has with was | alone
        · exact absent j was
        · exact alone q here c' after rfl

theorem Keyed.advance {got : List (Int × Nat)} (keyed : Keyed (g, got))
    (present : g.calls p = some c) (step : c.Advances g.state s' next) :
    Keyed ({ state := s', calls := update g.calls p next.getLeft? },
      ((next.getRight?.bind id).map (c.key, ·)).toList ++ got) := by
  have searches : g.Searches p c := keyed.searches p c present
  -- the segments are the same and nothing is returned, and the call goes on with its key
  have on {c' : GetCall} (key : c'.key = c.key)
      (goesOn : Getting.Searches ⟨g.state, update g.calls p (some c')⟩ p c') :
      Keyed (⟨g.state, update g.calls p (some c')⟩, got) :=
    keyed.goOn present (fun _ is => by cases is; exact key) keyed.distinct id .inl (fun _ _ => .inl)
      fun _ is => by cases is; exact goesOn
  -- the call has returned, without a new segment
  have back {k : Kmem} {v : Option Nat}
      (is : ∀ i, v = some i → ∃ j : Fin NSHM, j.val = i ∧ g.state.HasKey j c.key) :
      Keyed (⟨{ g.state with kmem := k }, update g.calls p none⟩,
        (v.map (c.key, ·)).toList ++ got) := by
    refine keyed.goOn present nofun keyed.distinct id .inl (fun key i returned => ?_) nofun
    rcases List.mem_append.mp returned with new | old
    · rw [Option.mem_toList, Option.map_eq_some_iff] at new
      obtain ⟨i, some, same⟩ := new
      cases same
      exact .inr (is i some)
    · exact .inl old
  cases step with
  | found i looking has =>
    refine back (k := g.state.kmem) (v := some i.val) fun i' same => ?_
    cases same
    exact ⟨i, rfl, has⟩
  | next i looking other =>
    refine on rfl ?_
    rcases searches with ⟨i', j, phase, le, has⟩ | ⟨absent, sole⟩
    · rw [looking] at phase
      cases phase
      have ne : j ≠ i := by
        rintro rfl
        exact other has
      exact .inl ⟨i + 1, j, rfl, Nat.lt_of_le_of_ne le fun same => ne (Fin.ext same.symm), has⟩
    · exact .inr ⟨absent, sole.keep (update_calls present fun c' same => by cases same; rfl)⟩
  | absent i looking le =>
    refine on rfl ?_
    rcases searches with ⟨i', j, phase, le', _⟩ | ⟨absent, sole⟩
    · rw [looking] at phase
      cases phase
      exact absurd (Nat.le_trans le le') (Nat.not_le_of_lt j.isLt)
    · exact .inr ⟨absent, sole.keep (update_calls present fun c' same => by cases same; rfl)⟩
  | taken i allocating =>
    refine on rfl ?_
    obtain ⟨absent, sole⟩ := searches.resolve_left fun ⟨i', j, phase, _⟩ => by
      rw [allocating] at phase
      cases phase
    exact .inr ⟨absent, sole.keep (update_calls present fun c' same => by cases same; rfl)⟩
  | full => exact back (k := g.state.kmem) (v := none) fun i same => by cases same
  | noMemory k => exact back (v := none) fun i same => by cases same
  | made i k seg allocating unused key =>
    obtain ⟨absent, sole⟩ := searches.resolve_left fun ⟨i', j, phase, _⟩ => by
      rw [allocating] at phase
      cases phase
    have old {j : Fin NSHM} {key' : Int} (has : g.state.HasKey j key') :
        ∃ seg', update g.state.segtable i (some seg) j = some seg' ∧ seg'.key = key' := by
      obtain ⟨seg', was, same⟩ := has
      have other : j ≠ i := by
        rintro rfl
        rw [unused] at was
        cases was
      exact ⟨seg', (update_of_ne other ..).trans was, same⟩
    have only {j : Fin NSHM} {key' : Int}
        (has : ∃ seg', update g.state.segtable i (some seg) j = some seg' ∧ seg'.key = key') :
        j = i ∧ key' = c.key ∨ g.state.HasKey j key' := by
      obtain ⟨seg', is, same⟩ := has
      by_cases here : j = i
      · rw [here, update_self] at is
        cases is
        exact .inl ⟨here, same.symm.trans key⟩
      · rw [update_of_ne here] at is
        exact .inr ⟨seg', is, same⟩
    refine keyed.goOn present nofun (fun j j' key' has has' => ?_) old (fun has => ?_)
      (fun key' j returned => ?_) nofun
    · rcases only has with ⟨rfl, rfl⟩ | was
      · rcases only has' with ⟨rfl, _⟩ | was'
        · rfl
        · exact absurd was' (absent j')
      · rcases only has' with ⟨rfl, rfl⟩ | was'
        · exact absurd was (absent j)
        · exact keyed.distinct j j' key' was was'
    · rcases only has with ⟨_, rfl⟩ | was
      · exact .inr sole
      · exact .inl was
    · rcases List.mem_cons.mp returned with now | before
      · cases now
        exact .inr ⟨i, rfl, seg, update_self .., key⟩
      · exact .inl before

theorem Keyed.step {x : Getting ι × List (Int × Nat)} (keyed : Keyed x) (may : KeysApart x.1 l)
    (step : execGet x.1 l.1 = some (g', l.2)) : Keyed (g', noteGot x.2 x.1 l) := by
  obtain ⟨⟨p, act⟩, returned⟩ := l
  obtain ⟨g, got⟩ := x
  unfold execGet at step
  dsimp only at step ⊢
  split at step
  · cases step
    exact keyed.enter may
  · next c present =>
    have stepped := c.advance_advances g.state
    split at step
    · cases step
    · next s c' goesOn =>
      cases step
      rw [goesOn] at stepped
      exact keyed.advance present stepped.value
    · next s value back =>
      cases step
      rw [back] at stepped
      exact keyed.advance present stepped.value
  · cases step

/-- **One segment for each key**, in every run in which a call begins only when the key has a
segment or no other call with the key is going on. -/
theorem oneSegment_of_keysApart {x : Getting ι × List (Int × Nat)}
    (reach : getting.ReachableWhen (fun x l => KeysApart x.1 l) x) : OneSegment x := by
  have keyed : Keyed x := by
    refine reach.invariant (P := Keyed) ?_ ?_
    · rintro ⟨g, got⟩ ⟨start, none⟩
      subst none
      have absent (i : Fin NSHM) (key : Int) : ¬ g.state.HasKey i key := by
        rintro ⟨seg, present, _⟩
        rw [start.unused i] at present
        cases present
      refine ⟨fun i _ key has => absurd has (absent i key), fun key i returned => ?_,
        fun p c present => ?_⟩
      · cases returned
      · rw [start.idle p] at present
        cases present
    · rintro x l ⟨g', got'⟩ keyed may ⟨step, noted⟩
      subst noted
      exact keyed.step may step
  exact keyed.oneSegment

end Runs

/-- A second call with the key begins once the segment is there, together with a call with
another key. -/
theorem oneSegment_shared : ∃ x : Getting (Fin 3) × List (Int × Nat),
    getting.ReachableWhen (fun x l => KeysApart x.1 l) x ∧
      x.2 = [(8, 1), (7, 0), (7, 0)] ∧ OneSegment x := by
  obtain ⟨x, reach, got⟩ : ∃ x : Getting (Fin 3) × List (Int × Nat),
      getting.ReachableWhen (fun x l => KeysApart x.1 l) x ∧ x.2 = [(8, 1), (7, 0), (7, 0)] :=
    Lts.exists_of_replay KeysApart (s := { state := tinyBoot, calls := fun _ => none })
      ⟨fun _ => rfl, fun _ => rfl⟩ ([(0, .enter 7 100), (1, .enter 8 100)] ++
        List.replicate 18 (0, .advance) ++ [(2, .enter 7 100), (2, .advance)] ++
        List.replicate 19 (1, .advance)) (by decide +kernel)
  exact ⟨x, reach, got, oneSegment_of_keysApart reach⟩

end Xv6.Vm
