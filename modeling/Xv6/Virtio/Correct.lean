import Xv6.Virtio.Flow

/-!
# Requests do not share descriptors and complete once

Every step keeps the invariants of the driver, so that they hold in every run of any number of
threads with the device.
-/

set_option linter.unusedSectionVars false

namespace Xv6.Virtio

open Function (update update_self update_of_ne)
open Function

section Step

variable {P B : Type} [DecidableEq P] [DecidableEq B]

/-- The heads that the device has not completed, in the avail ring or taken. -/
def State.early (s : State P B) (t : Trace P) : List Nat :=
  t.published.drop t.taken ++ s.device.serving

/-- The heads that the device has completed and `virtio_disk_intr` has not seen. -/
def State.late (s : State P B) (t : Trace P) : List Nat :=
  s.device.done ++ (s.device.posting.toList ++ t.posted.drop t.handled)

/-- What `used_idx` is behind, while `virtio_disk_intr` is about to count. -/
def pace (lock : Option P) (pc : P → Pc B) : UInt16 :=
  match lock with
  | none => 0
  | some p => if pc p = .intrAdvance then 1 else 0

structure Inv (s : State P B) (t : Trace P) : Prop where
  running : s.panicked = none
  locked : Locked s.lock s.pc fun b => (s.buf b).lock
  chains : Chains s.disk.free (Pc.request ∘ s.pc)
  formats : Formats s.disk.desc s.disk.ops s.disk.info (fun b => (s.buf b).sector)
    (Pc.formatted ∘ s.pc)
  ledger : Ledger (Pc.sent ∘ s.pc) (fun b => (s.buf b).disk) (s.early t) (s.late t) t.owner
    t.completions t.deliveries
  status : ∀ h ∈ s.late t, (s.disk.info h).status = 0
  avail : Ring s.disk.avail.idx s.device.next s.disk.avail.ring t.published t.taken
  used : Ring s.disk.used.idx (s.disk.usedIdx + pace s.lock s.pc) s.disk.used.ring
    t.posted t.handled
  posting : ∀ h, s.device.posting = some h → s.disk.used.ring (t.posted.length % NUM) = h
  knows : ∀ p, Knows (fun b => (s.buf b).disk) (s.disk.avail.ring (t.published.length % NUM))
    (t.handled < t.posted.length) (s.pc p)

variable {s s' : State P B} {t : Trace P} {p q : P} {b : B} {r : Request B} {c c' : Pc B}
  {h n : Nat} {lock' : Option P}

theorem Inv.init (blocks : Nat → Log.Block) :
    Inv ({ device := { blocks := blocks } } : State P B) {} where
  running := rfl
  locked := ⟨nofun, nofun, nofun⟩
  chains := by
    refine ⟨fun i => ?_, nofun, nofun⟩
    rw [decide_eq_true_eq]
    exact ⟨fun small => ⟨small, nofun⟩, fun both => both.1⟩
  formats := nofun
  ledger := ⟨List.nodup_nil, fun h => ⟨nofun, by rintro ⟨p, r, ⟨⟩, -⟩⟩, nofun, nofun, nofun, nofun,
    nofun, fun _ => ⟨Nat.le_refl 0, Nat.zero_le 1⟩⟩
  status := nofun
  avail := ⟨rfl, rfl, Nat.le_refl 0, nofun⟩
  used := ⟨rfl, rfl, Nat.le_refl 0, nofun⟩
  posting := nofun
  knows _ := trivial

/-! ## Threads that go on -/

theorem pace_update (pc : P → Pc B) :
    pace (some p) (update pc p c) = if c = .intrAdvance then 1 else 0 := by
  unfold pace
  dsimp only
  rw [update_self]

theorem Inv.pace_inside (inv : Inv s t) (inside : (s.pc p).inside = true)
    (other : s.pc p ≠ .intrAdvance) : pace s.lock s.pc = 0 := by
  rw [inv.locked.held p inside]
  exact if_neg other

theorem Inv.used_still (inv : Inv s t) (inside : (s.pc p).inside = true)
    (other : s.pc p ≠ .intrAdvance) (still : c ≠ .intrAdvance) :
    Ring s.disk.used.idx (s.disk.usedIdx + pace s.lock (update s.pc p c)) s.disk.used.ring
      t.posted t.handled := by
  have used := inv.used
  rw [inv.pace_inside inside other] at used
  rw [inv.locked.held p inside, pace_update, if_neg still]
  exact used

theorem Inv.buffers (inv : Inv s t) (mine : (s.pc p).request = some r) (q : P) (r' : Request B)
    (is : (s.pc q).sent = some r') (same : r'.b = r.b) : q = p :=
  have own := inv.locked.own q r.b (same ▸ Pc.buffer_of_request (Pc.request_of_sent is))
  Option.some.inj (own.symm.trans (inv.locked.own p r.b (Pc.buffer_of_request mine)))

theorem setBuf_field {β : Type} (g : Buf P → β) (same : ∀ v, g (f v) = g v) (s : State P B)
    (b b' : B) : g ((s.setBuf b f).buf b') = g (s.buf b') := by
  show g (update s.buf b (f (s.buf b)) b') = _
  by_cases here : b' = b
  · rw [here, update_self]
    exact same _
  · rw [update_of_ne here]

theorem setBuf_flag (s : State P B) (b : B) (up : Bool) (b' : B) :
    ((s.setBuf b fun v => { v with disk := up }).buf b').disk =
      update (fun b' => (s.buf b').disk) b up b' := by
  show (update s.buf b _ b').disk = _
  by_cases here : b' = b
  · rw [here, update_self, update_self]
  · rw [update_of_ne here, update_of_ne here]

theorem Inv.setBuf (inv : Inv s t) (flag : ∀ v, (f v).disk = v.disk)
    (unused : ∀ q, (s.pc q).buffer ≠ some b) : Inv (s.setBuf b f) t := by
  have other {q : P} {b' : B} (is : (s.pc q).buffer = some b') :
      (s.setBuf b f).buf b' = s.buf b' := by
    refine update_of_ne (fun same => unused q ?_) ..
    rw [is, same]
  have flags := setBuf_field Buf.disk flag s b
  refine ⟨inv.running, ⟨inv.locked.held, inv.locked.holder, fun q b' is => ?_⟩, inv.chains,
    fun q r is => ?_, ?_, inv.status, inv.avail, inv.used, inv.posting, ?_⟩
  · rw [other is]
    exact inv.locked.own q b' is
  · dsimp only
    rw [other (Pc.buffer_of_request (Pc.request_of_formatted is))]
    exact inv.formats q r is
  · exact inv.ledger.flags fun _ r _ => flags r.b
  · rw [show (fun b' => ((s.setBuf b f).buf b').disk) = fun b' => (s.buf b').disk from funext flags]
    exact inv.knows

/-- Points at which a thread has the same request, and the device knows as much of it. -/
structure Pc.Alike (c c' : Pc B) : Prop where
  request : c.request = c'.request
  formatted : c.formatted = c'.formatted
  sent : c.sent = c'.sent

/-- A thread goes on to a point of the same kind, and nothing else changes but `vdisk_lock`. -/
theorem Inv.goes (inv : Inv s t)
    (locked : Locked lock' (update s.pc p c) fun b => (s.buf b).lock)
    (alike : c.Alike (s.pc p)) (paces : pace lock' (update s.pc p c) = pace s.lock s.pc)
    (knows : Knows (fun b => (s.buf b).disk) (s.disk.avail.ring (t.published.length % NUM))
      (t.handled < t.posted.length) c) : Inv ({ s with lock := lock' }.goes p c) t := by
  refine ⟨inv.running, locked, inv.chains.goes alike.request, inv.formats.goes alike.formatted,
    inv.ledger.goes alike.sent, inv.status, inv.avail, ?_, inv.posting,
    Monitor.forall_goes inv.knows knows⟩
  have used := inv.used
  rw [← paces] at used
  exact used

theorem Inv.acquires (inv : Inv s t) (acquired : s.acquires p c = some s')
    (alike : c.Alike (s.pc p))
    (buffer : c.buffer = (s.pc p).buffer) (inside : c.inside = true) (start : c ≠ .intrAdvance)
    (knows : Knows (fun b => (s.buf b).disk) (s.disk.avail.ring (t.published.length % NUM))
      (t.handled < t.posted.length) c) : Inv s' t := by
  unfold State.acquires at acquired
  split at acquired
  · next free =>
    cases acquired
    refine inv.goes (inv.locked.acquires free inside buffer) alike ?_ knows
    rw [pace_update, if_neg start, free]
    rfl
  · cases acquired

theorem Inv.releases (inv : Inv s t) (alike : c.Alike (s.pc p))
    (buffer : c.buffer = (s.pc p).buffer)
    (inside : (s.pc p).inside = true) (other : s.pc p ≠ .intrAdvance) (out : c.inside = false) :
    Inv (s.releases p c) t := by
  refine inv.goes (inv.locked.releases inside out fun b is => buffer ▸ is) alike ?_ (.out out)
  rw [inv.pace_inside inside other]
  rfl

theorem Inv.inside (inv : Inv s t) (alike : c.Alike (s.pc p)) (buffer : c.buffer = (s.pc p).buffer)
    (inside : (s.pc p).inside = true) (other : s.pc p ≠ .intrAdvance) (there : c.inside = true)
    (still : c ≠ .intrAdvance)
    (knows : Knows (fun b => (s.buf b).disk) (s.disk.avail.ring (t.published.length % NUM))
      (t.handled < t.posted.length) c) : Inv (s.goes p c) t := by
  refine inv.goes (inv.locked.inside inside there buffer) alike ?_ knows
  rw [inv.pace_inside inside other, inv.locked.held p inside, pace_update, if_neg still]

theorem Inv.enters (inv : Inv s t) (at_ : s.pc p = .user) (alike : c.Alike .user)
    (out : c.inside = false) (own : ∀ b, c.buffer = some b → (s.buf b).lock = some p) :
    Inv (s.goes p c) t := by
  have before : (s.pc p).inside = false := by rw [at_]; rfl
  refine inv.goes (inv.locked.outside before out own) (at_ ▸ alike) ?_ (.out out)
  cases holder : s.lock with
  | none => rfl
  | some q =>
    have other : q ≠ p := by
      rintro rfl
      rw [inv.locked.holder q holder] at before
      cases before
    unfold pace
    dsimp only
    rw [update_of_ne other]

/-! ## Steps of `virtio_disk_rw` -/

theorem Inv.known (inv : Inv s t) (inside : (s.pc p).inside = true) {more : Prop}
    (knows : Knows flag last more c) (q : P) : Knows flag last more (update s.pc p c q) :=
  inv.locked.held.all (.inl (inv.locked.held p inside)) (fun out => .out out) knows q

theorem Inv.allocates (inv : Inv s t) (at_ : s.pc p = .alloc b write) :
    Inv (s.allocates p b write) t := by
  have inside : (s.pc p).inside = true := by rw [at_]; rfl
  unfold State.allocates
  rcases alloc3Desc_cases s.disk with ⟨desc', is, others⟩ |
    ⟨i, j, k, free', is, nodup, before, after⟩
  · rw [is]
    have asleep : Inv { s with disk := { s.disk with desc := desc' } } t := by
      refine ⟨inv.running, inv.locked, inv.chains, ?_, inv.ledger, inv.status, inv.avail, inv.used,
        inv.posting, inv.knows⟩
      exact fun q r is => (inv.formats q r is).congr
        (fun i mem => others i (inv.chains.used (Pc.request_of_formatted is) mem)) rfl rfl
    refine asleep.releases ?_ ?_ inside (by rw [at_]; exact nofun) rfl
    · rw [at_]
      exact ⟨rfl, rfl, rfl⟩
    · rw [at_]
      rfl
  · rw [is]
    have none : (Pc.request ∘ s.pc) p = none := by
      show (s.pc p).request = none
      rw [at_]
      rfl
    refine ⟨inv.running, inv.locked.inside inside rfl (by rw [at_]; rfl), ?_,
      inv.formats.goes (by rw [at_]; rfl), inv.ledger.goes (by rw [at_]; rfl),
        inv.status, inv.avail,
      inv.used_still inside (by rw [at_]; exact nofun) nofun, inv.posting,
      Monitor.forall_goes inv.knows trivial⟩
    show Chains free' (Pc.request ∘ update s.pc p _)
    rw [comp_update]
    exact inv.chains.allocate none nodup before after

theorem format_other {d : Disk B} (outside : i ∉ r.idx) :
    (d.format r n).desc i = d.desc i ∧ (d.format r n).ops i = d.ops i ∧
      (d.format r n).info i = d.info i := by
  rw [Request.mem_idx, not_or, not_or] at outside
  unfold Disk.format
  dsimp only
  rw [update_of_ne outside.2.2, update_of_ne outside.2.1,
    update_of_ne outside.1, update_of_ne outside.1, update_of_ne outside.1]
  exact ⟨rfl, rfl, rfl⟩

theorem Inv.heads (inv : Inv s t) (mine : (s.pc p).request = some r) (unsent : (s.pc p).sent = none)
    (q : P) (r' : Request B) (is : (s.pc q).sent = some r') : r'.idx0 ≠ r.idx0 := by
  intro same
  have head (r : Request B) : r.idx0 ∈ r.idx := Request.mem_idx.mpr (.inl rfl)
  rw [inv.chains.apart p q r r' r.idx0 mine (Pc.request_of_sent is) (head r) (same ▸ head r'),
    unsent] at is
  cases is

theorem Inv.format (inv : Inv s t) (at_ : s.pc p = .format r) :
    Inv (({ s with disk := s.disk.format r (s.buf r.b).sector }.setBuf r.b
      fun v => { v with disk := true }).goes p (.fill r)) t := by
  have inside : (s.pc p).inside = true := by rw [at_]; rfl
  have request : (s.pc p).request = some r := by rw [at_]; rfl
  have unsent : (s.pc p).sent = none := by rw [at_]; rfl
  have flags := setBuf_flag { s with disk := s.disk.format r (s.buf r.b).sector } r.b true
  have sectors := setBuf_field Buf.sector (f := fun v => { v with disk := true }) (fun _ => rfl)
    { s with disk := s.disk.format r (s.buf r.b).sector } r.b
  have locks := setBuf_field Buf.lock (f := fun v => { v with disk := true }) (fun _ => rfl)
    { s with disk := s.disk.format r (s.buf r.b).sector } r.b
  refine ⟨inv.running, ?_, inv.chains.goes request.symm, ?_, ?_, fun h mem => ?_, inv.avail,
    inv.used_still inside (by rw [at_]; exact nofun) nofun, inv.posting, ?_⟩
  · exact (inv.locked.inside inside rfl (by rw [at_]; rfl)).congr locks
  · refine Formats.congr ?_ sectors
    show Formats _ _ _ _ (Pc.formatted ∘ update s.pc p _)
    rw [comp_update]
    intro q r' is
    rcases update_eq_iff.mp is with ⟨-, ⟨⟩⟩ | ⟨here, is⟩
    · exact Shape.format s.disk (inv.chains.each p r request).1 _
    have other {i : Nat} (mem : i ∈ r'.idx) :=
      format_other (d := s.disk) (n := (s.buf r.b).sector)
        (inv.chains.other request (Pc.request_of_formatted is) here mem)
    have head := other (Request.mem_idx.mpr (.inl rfl))
    exact (inv.formats q r' is).congr (fun i mem => (other mem).1) head.2.1
      (congrArg Info.b head.2.2)
  · refine (inv.ledger.flags fun q r' is => (flags r'.b).trans ?_).goes unsent.symm
    refine update_of_ne (fun same => ?_) ..
    have is : (s.pc q).sent = some r' := is
    rw [inv.buffers request q r' is same, unsent] at is
    cases is
  · have fresh := inv.ledger.fresh (inv.heads request unsent)
    have other : h ≠ r.idx0 := fun same => fresh (same ▸ List.mem_append_right _ mem)
    show (update s.disk.info r.idx0 _ h).status = 0
    rw [update_of_ne other]
    exact inv.status h mem
  · exact inv.known inside ((flags r.b).trans (update_self ..))

theorem Inv.room (inv : Inv s t) (mine : (s.pc p).request = some r) (unsent : (s.pc p).sent = none)
    (raised : (s.buf r.b).disk = true) : t.published.length < t.taken + NUM := by
  have more := inv.ledger.publish unsent raised (inv.heads mine unsent)
  have room := more.length_le fun q r' is => ?_
  · unfold State.early at room
    simp only [List.cons_append, List.length_cons, List.length_append, List.length_drop] at room
    omega
  · rcases update_eq_iff.mp is with ⟨-, ⟨⟩⟩ | ⟨-, is⟩
    · exact (inv.chains.each p r mine).2 _ (Request.mem_idx.mpr (.inl rfl))
    · exact (inv.chains.each q r' (Pc.request_of_sent is)).2 _ (Request.mem_idx.mpr (.inl rfl))

theorem Inv.fill (inv : Inv s t) (at_ : s.pc p = .fill r) :
    Inv ({ s with disk := s.disk.fill r.idx0 }.goes p (.publish r)) t := by
  have inside : (s.pc p).inside = true := by rw [at_]; rfl
  have request : (s.pc p).request = some r := by rw [at_]; rfl
  have unsent : (s.pc p).sent = none := by rw [at_]; rfl
  have raised : (s.buf r.b).disk = true := by
    have knows := inv.knows p
    rw [at_] at knows
    exact knows
  refine ⟨inv.running, inv.locked.inside inside rfl (by rw [at_]; rfl),
    inv.chains.goes request.symm,
    inv.formats.goes (by rw [at_]; rfl), inv.ledger.goes unsent.symm, inv.status,
    inv.avail.write (inv.room request unsent raised) r.idx0,
    inv.used_still inside (by rw [at_]; exact nofun) nofun, inv.posting,
    inv.known inside ⟨raised, ?_⟩⟩
  show update s.disk.avail.ring (s.disk.avail.idx.toNat % NUM) r.idx0 _ = _
  rw [inv.avail.slot, update_self]

theorem Inv.publish (inv : Inv s t) (at_ : s.pc p = .publish r) :
    Inv ({ s with disk := s.disk.publish }.goes p (.wait r)) (note t s (.run p, ())) := by
  have inside : (s.pc p).inside = true := by rw [at_]; rfl
  have request : (s.pc p).request = some r := by rw [at_]; rfl
  have unsent : (s.pc p).sent = none := by rw [at_]; rfl
  have knows := inv.knows p
  rw [at_] at knows
  obtain ⟨raised, last⟩ := knows
  have noted : note t s (.run p, ()) =
      { t with
        published := t.published ++ [r.idx0]
        owner := update t.owner r.idx0 (some p)
        completions := update t.completions p 0
        deliveries := update t.deliveries p 0 } := by
    unfold note
    dsimp only
    rw [at_]
  rw [noted]
  have drop : (t.published ++ [r.idx0]).drop t.taken = t.published.drop t.taken ++ [r.idx0] :=
    List.drop_append_of_le_length inv.avail.le
  refine ⟨inv.running, inv.locked.inside inside rfl (by rw [at_]; rfl),
    inv.chains.goes request.symm,
    inv.formats.goes (by rw [at_]; rfl), ?_, inv.status, inv.avail.count last,
    inv.used_still inside (by rw [at_]; exact nofun) nofun, inv.posting, inv.known inside trivial⟩
  show Ledger (Pc.sent ∘ update s.pc p (.wait r)) _ _ _ _ _ _
  rw [comp_update]
  refine (inv.ledger.publish unsent raised (inv.heads request unsent)).moves ?_ (.refl _)
  show ((t.published ++ [r.idx0]).drop t.taken ++ s.device.serving).Perm _
  rw [drop, List.append_assoc]
  exact List.perm_middle

theorem Inv.finishes (inv : Inv s t) (at_ : s.pc p = .finish r) : Inv (s.finishes p r) t := by
  have inside : (s.pc p).inside = true := by rw [at_]; rfl
  have request : (s.pc p).request = some r := by rw [at_]; rfl
  have formatted : (s.pc p).formatted = some r := by rw [at_]; rfl
  have sent : (s.pc p).sent = some r := by rw [at_]; rfl
  have given : (s.buf r.b).disk = false := by
    have knows := inv.knows p
    rw [at_] at knows
    exact knows
  obtain ⟨nodup, small⟩ := inv.chains.each p r request
  have shape := inv.formats p r formatted
  obtain ⟨desc', free', is, others, after⟩ := freeChain_linked (d := s.disk.forget r.idx0)
    shape.toLinked nodup fun i mem =>
    ⟨small i mem, inv.chains.used request mem⟩
  unfold State.finishes
  rw [is]
  refine ⟨inv.running, inv.locked.releases inside rfl nofun, ?_, ?_, ?_, fun h mem => ?_,
    inv.avail, ?_, inv.posting, Monitor.forall_goes inv.knows trivial⟩
  · show Chains free' (Pc.request ∘ update s.pc p .user)
    rw [comp_update]
    exact inv.chains.release request after
  · show Formats _ _ _ _ (Pc.formatted ∘ update s.pc p .user)
    rw [comp_update]
    intro q r' is
    rcases update_eq_iff.mp is with ⟨-, ⟨⟩⟩ | ⟨ne, is⟩
    have other {i : Nat} (mem : i ∈ r'.idx) : i ∉ r.idx :=
      inv.chains.other request (Pc.request_of_formatted is) ne mem
    refine (inv.formats q r' is).congr (fun i mem => others i (other mem)) rfl ?_
    have head := other (Request.mem_idx.mpr (.inl rfl))
    show (update s.disk.info r.idx0 _ r'.idx0).b = _
    rw [update_of_ne fun same => head (Request.mem_idx.mpr (.inl same))]
  · show Ledger (Pc.sent ∘ update s.pc p .user) _ _ _ _ _ _
    rw [comp_update]
    exact inv.ledger.finish sent given
  · show (update s.disk.info r.idx0 { s.disk.info r.idx0 with b := none } h).status = 0
    by_cases here : h = r.idx0
    · rw [here, update_self]
      exact inv.status _ (here ▸ mem)
    · rw [update_of_ne here]
      exact inv.status h mem
  · have used := inv.used
    rw [inv.pace_inside inside (by rw [at_]; exact nofun)] at used
    exact used

/-! ## Steps of `virtio_disk_intr` and of the device -/

/-- The entry of the used ring that `virtio_disk_intr` reads is the head of a request, whose buffer
it gives back. -/
theorem Inv.handles (inv : Inv s t) (at_ : s.pc p = .intrHandle) :
    Inv (s.handles p) (note t s (.run p, ())) := by
  have inside : (s.pc p).inside = true := by rw [at_]; rfl
  have mine := inv.locked.held p inside
  have used := inv.used
  rw [inv.pace_inside inside (by rw [at_]; exact nofun), UInt16.add_zero] at used
  have found : t.handled < t.posted.length := by
    have knows := inv.knows p
    rw [at_] at knows
    exact knows
  have rest : t.posted.drop t.handled = s.disk.nextUsed :: t.posted.drop (t.handled + 1) :=
    used.drop found
  have perm : (s.late t).Perm (s.disk.nextUsed ::
      (s.device.done ++ (s.device.posting.toList ++ t.posted.drop (t.handled + 1)))) := by
    unfold State.late
    rw [rest, ← List.append_assoc, ← List.append_assoc]
    exact List.perm_middle
  have mem : s.disk.nextUsed ∈ s.late t := perm.mem_iff.mpr List.mem_cons_self
  obtain ⟨q, r, sent, head, up⟩ := (inv.ledger.pending _).mp (List.mem_append_right _ mem)
  have info := (inv.formats q r (Pc.formatted_of_sent sent)).info
  have is : s.handles p = (s.setBuf r.b fun v => { v with disk := false }).goes p .intrAdvance := by
    unfold State.handles
    rw [if_neg fun bad => bad (inv.status _ mem), ← head, info]
  have noted : note t s (.run p, ()) =
      { t with
        handled := t.handled + 1
        deliveries := update t.deliveries q (t.deliveries q + 1) } := by
    unfold note
    dsimp only
    rw [at_]
    rw [← head, inv.ledger.owner q r sent]
    rfl
  rw [is, noted]
  have flags := setBuf_flag s r.b false
  have sectors := setBuf_field Buf.sector (f := fun v => { v with disk := false })
      (fun _ => rfl) s r.b
  have locks := setBuf_field Buf.lock (f := fun v => { v with disk := false }) (fun _ => rfl) s r.b
  refine ⟨inv.running, ?_, inv.chains.goes (by rw [at_]; rfl), ?_, ?_, fun h mem => ?_,
    inv.avail, ?_, inv.posting, inv.known inside trivial⟩
  · exact (inv.locked.inside inside rfl (by rw [at_]; rfl)).congr locks
  · exact (inv.formats.goes (by rw [at_]; rfl)).congr sectors
  · have ledger := inv.ledger.handle sent up (head ▸ perm) (inv.buffers (Pc.request_of_sent sent))
    exact (ledger.flags fun _ r' _ => flags r'.b).goes (by rw [at_]; rfl)
  · exact inv.status h (perm.mem_iff.mpr (List.mem_cons_of_mem _ mem))
  · show Ring _ (s.disk.usedIdx + pace s.lock (update s.pc p _)) _ _ _
    rw [mine, pace_update, if_pos rfl]
    exact used.take found

theorem Inv.advances (inv : Inv s t) (at_ : s.pc p = .intrAdvance) :
    Inv ({ s with disk := { s.disk with usedIdx := s.disk.usedIdx + 1 } }.goes p .intrTest) t := by
  have inside : (s.pc p).inside = true := by rw [at_]; rfl
  have mine := inv.locked.held p inside
  refine ⟨inv.running, inv.locked.inside inside rfl (by rw [at_]; rfl),
    inv.chains.goes (by rw [at_]; rfl), inv.formats.goes (by rw [at_]; rfl),
    inv.ledger.goes (by rw [at_]; rfl), inv.status, inv.avail, ?_, inv.posting,
    Monitor.forall_goes inv.knows trivial⟩
  have used := inv.used
  rw [mine] at used
  show Ring _ (s.disk.usedIdx + 1 + pace s.lock (update s.pc p _)) _ _ _
  rw [mine, pace_update, if_neg nofun, UInt16.add_zero]
  rwa [show pace (some p) s.pc = 1 from if_pos at_] at used

theorem Inv.takes (inv : Inv s t) (taken : s.take = some s') : Inv s' (note t s (.take, ())) := by
  unfold State.take at taken
  split at taken
  · cases taken
  next more =>
  cases taken
  have below := inv.avail.below more
  refine ⟨inv.running, inv.locked, inv.chains, inv.formats,
    inv.ledger.moves ?_ (.refl _), inv.status,
    inv.avail.take below, inv.used, inv.posting, inv.knows⟩
  unfold State.early
  rw [inv.avail.drop below]
  exact List.perm_middle

/-- The device does what the request says. -/
theorem serve_eq (shape : Shape s.disk.desc s.disk.ops s.disk.info r n) :
    s.serve r.idx0 = (s.transfer
      { type := if r.write then VIRTIO_BLK_T_OUT else VIRTIO_BLK_T_IN, sector := n } r.b).setStatus
        r.idx0 := by
  unfold State.serve
  dsimp only
  rw [shape.first]
  rw [shape.second]
  rw [shape.third]
  dsimp only
  rw [shape.op]

theorem Inv.transfers (inv : Inv s t) (req : VirtioBlkReq) (b : B) : Inv (s.transfer req b) t := by
  unfold State.transfer
  split
  · exact ⟨inv.running, inv.locked, inv.chains, inv.formats, inv.ledger, inv.status,
      inv.avail, inv.used, inv.posting, inv.knows⟩
  have same {β : Type} (g : Buf P → β) (keeps : ∀ v d, g { v with data := d } = g v) :=
    setBuf_field g (fun v => keeps v (s.device.blocks req.sector)) s b
  have flags := same Buf.disk fun _ _ => rfl
  refine ⟨inv.running, inv.locked.congr (same Buf.lock fun _ _ => rfl), inv.chains,
    inv.formats.congr (same Buf.sector fun _ _ => rfl), inv.ledger.flags fun _ r _ => flags r.b,
    inv.status, inv.avail, inv.used, inv.posting, ?_⟩
  rw [show (fun b' => ((s.setBuf b _).buf b').disk) = fun b' => (s.buf b').disk from funext flags]
  exact inv.knows

theorem transfer_serving (s : State P B) (req : VirtioBlkReq) (b : B) :
    (s.transfer req b).device.serving = s.device.serving := by
  unfold State.transfer
  split
  · rfl
  · rfl

theorem Inv.completed (inv : Inv s t) (serving : h ∈ s.device.serving) :
    Inv { s.setStatus h with device := { s.device with
      serving := s.device.serving.erase h, done := h :: s.device.done } }
      (note t s (.complete h, ())) := by
  have perm : (s.early t).Perm (h :: (t.published.drop t.taken ++ s.device.serving.erase h)) :=
    ((List.perm_cons_erase serving).append_left _).trans List.perm_middle
  obtain ⟨q, r, sent, head, owner, ledger⟩ := inv.ledger.complete perm
  have noted : note t s (.complete h, ()) =
      { t with completions := update t.completions q (t.completions q + 1) } := by
    unfold note
    dsimp only
    rw [owner]
    rfl
  rw [noted]
  refine ⟨inv.running, inv.locked, inv.chains, ?_, ledger, fun x mem => ?_, inv.avail, inv.used,
    inv.posting, inv.knows⟩
  · refine fun q r' is => (inv.formats q r' is).congr (fun _ _ => rfl) rfl ?_
    show (update s.disk.info h { s.disk.info h with status := 0 } r'.idx0).b = _
    by_cases here : r'.idx0 = h
    · rw [here, update_self]
    · rw [update_of_ne here]
  · show (update s.disk.info h { s.disk.info h with status := 0 } x).status = 0
    by_cases here : x = h
    · rw [here, update_self]
    · rw [update_of_ne here]
      exact inv.status x ((List.mem_cons.mp mem).resolve_left here)

theorem Inv.completes (inv : Inv s t) (completed : s.complete h = some s') :
    Inv s' (note t s (.complete h, ())) := by
  unfold State.complete at completed
  split at completed
  · next serving =>
    have under : h ∈ s.early t := List.mem_append_right _ serving
    obtain ⟨q, r, sent, rfl, -⟩ := (inv.ledger.pending h).mp (List.mem_append_left _ under)
    rw [serve_eq (inv.formats q r (Pc.formatted_of_sent sent))] at completed
    have serving' := transfer_serving s
      { type := if r.write then VIRTIO_BLK_T_OUT else VIRTIO_BLK_T_IN
        sector := (s.buf r.b).sector } r.b
    cases completed
    exact (inv.transfers _ r.b).completed (serving'.symm ▸ serving)
  · cases completed

/-- The device writes a head that it has completed to a place of the used ring that
`virtio_disk_intr` does not need. -/
theorem Inv.posts (inv : Inv s t) (posted : s.post h = some s') : Inv s' t := by
  unfold State.post at posted
  split at posted
  · next can =>
    obtain ⟨done, idle⟩ := can
    cases posted
    have perm : (s.device.done.erase h ++ ((some h).toList ++ t.posted.drop t.handled)).Perm
        (s.late t) := by
      unfold State.late
      rw [idle]
      refine List.perm_middle.trans ?_
      exact (List.perm_cons_erase done).symm.append_right _
    have room := inv.ledger.length_le fun q r is =>
      (inv.chains.each q r (Pc.request_of_sent is)).2 _ (Request.mem_idx.mpr (.inl rfl))
    have near : t.posted.length < t.handled + NUM := by
      have some := List.length_pos_of_mem done
      unfold State.late at room
      simp only [List.length_append, List.length_drop] at room
      omega
    refine ⟨inv.running, inv.locked, inv.chains, inv.formats, inv.ledger.moves (.refl _) perm,
      fun x mem => inv.status x (perm.mem_iff.mp mem), inv.avail, inv.used.write near h,
      fun x is => ?_, inv.knows⟩
    cases is
    dsimp only
    rw [inv.used.slot, update_self]
  · cases posted

theorem Inv.counts (inv : Inv s t) (counted : s.count = some s') :
    Inv s' (note t s (.count, ())) := by
  unfold State.count at counted
  cases posting : s.device.posting with
  | none =>
    rw [posting] at counted
    cases counted
  | some h =>
    rw [posting] at counted
    cases counted
    have noted : note t s (.count, ()) = { t with posted := t.posted ++ [h] } := by
      unfold note
      rw [posting]
      rfl
    rw [noted]
    have perm : (s.device.done ++ ((none : Option Nat).toList ++
        (t.posted ++ [h]).drop t.handled)).Perm (s.late t) := by
      unfold State.late
      rw [List.drop_append_of_le_length inv.used.le, posting]
      have comm : (t.posted.drop t.handled ++ [h]).Perm ([h] ++ t.posted.drop t.handled) :=
        List.perm_append_comm
      exact comm.append_left _
    refine ⟨inv.running, inv.locked, inv.chains, inv.formats, inv.ledger.moves (.refl _) perm,
      fun x mem => inv.status x (perm.mem_iff.mp mem), inv.avail,
      inv.used.count (inv.posting h posting), nofun, fun q => ?_⟩
    have knows := inv.knows q
    cases at_ : s.pc q with
    | intrHandle =>
      rw [at_] at knows
      have found : t.handled < t.posted.length := knows
      show t.handled < (t.posted ++ [h]).length
      rw [List.length_append]
      omega
    | _ =>
      rw [at_] at knows
      exact knows

theorem note_run (at_ : s.pc p = c) (other : ∀ r, c ≠ .publish r) (other' : c ≠ .intrHandle) :
    note t s (.run p, ()) = t := by
  unfold note
  dsimp only
  rw [at_]
  split
  · next r => exact absurd rfl (other r)
  · exact absurd rfl other'
  · rfl

theorem Inv.runs (inv : Inv s t) (ran : s.run p = some s') : Inv s' (note t s (.run p, ())) := by
  unfold State.run at ran
  cases at_ : s.pc p with
  | user =>
    rw [at_] at ran
    cases ran
  | acquire b write | sleepFree b write | sleepBuf r | intr =>
    rw [note_run at_ nofun nofun]
    rw [at_] at ran
    refine inv.acquires ran ?_ (by rw [at_]; rfl) rfl nofun trivial
    rw [at_]
    exact ⟨rfl, rfl, rfl⟩
  | alloc b write =>
    rw [note_run at_ nofun nofun]
    rw [at_] at ran
    cases ran
    exact inv.allocates at_
  | format r =>
    rw [note_run at_ nofun nofun]
    rw [at_] at ran
    cases ran
    exact inv.format at_
  | fill r =>
    rw [note_run at_ nofun nofun]
    rw [at_] at ran
    cases ran
    exact inv.fill at_
  | publish r =>
    rw [at_] at ran
    cases ran
    exact inv.publish at_
  | finish r =>
    rw [note_run at_ nofun nofun]
    rw [at_] at ran
    cases ran
    exact inv.finishes at_
  | intrHandle =>
    rw [at_] at ran
    cases ran
    exact inv.handles at_
  | intrAdvance =>
    rw [note_run at_ nofun nofun]
    rw [at_] at ran
    cases ran
    exact inv.advances at_
  | wait r =>
    rw [note_run at_ nofun nofun]
    rw [at_] at ran
    dsimp only at ran
    have inside : (s.pc p).inside = true := by rw [at_]; rfl
    have other : s.pc p ≠ .intrAdvance := by rw [at_]; exact nofun
    split at ran
    · cases ran
      exact inv.releases (at_ ▸ ⟨rfl, rfl, rfl⟩) (by rw [at_]; rfl) inside other rfl
    · next given =>
      cases ran
      exact inv.inside (at_ ▸ ⟨rfl, rfl, rfl⟩) (by rw [at_]; rfl) inside other rfl nofun
        (Bool.eq_false_iff.mpr given)
  | intrTest =>
    rw [note_run at_ nofun nofun]
    rw [at_] at ran
    dsimp only at ran
    have inside : (s.pc p).inside = true := by rw [at_]; rfl
    have other : s.pc p ≠ .intrAdvance := by rw [at_]; exact nofun
    split at ran
    · next more =>
      cases ran
      have used := inv.used
      rw [inv.pace_inside inside other, UInt16.add_zero] at used
      exact inv.inside (at_ ▸ ⟨rfl, rfl, rfl⟩) (by rw [at_]; rfl) inside other rfl nofun
        (used.below more)
    · cases ran
      exact inv.releases (at_ ▸ ⟨rfl, rfl, rfl⟩) (by rw [at_]; rfl) inside other rfl

theorem Inv.step (inv : Inv s t) (stepped : step s a = some s') : Inv s' (note t s (a, ())) := by
  -- a buffer whose lock is free, or whose holder makes no call, is in no call
  have unused {p : P} {b : B} (at_ : s.pc p = .user)
      (lock : (s.buf b).lock = none ∨ (s.buf b).lock = some p) (q : P) :
        (s.pc q).buffer ≠ some b := by
    intro has
    have own := inv.locked.own q b has
    rcases lock with free | mine
    · rw [free] at own
      cases own
    · rw [mine] at own
      cases own
      rw [at_] at has
      cases has
  cases a with
  | acquiresleep p b blockno =>
    dsimp only [Virtio.step] at stepped
    split at stepped
    · next can =>
      cases stepped
      exact inv.setBuf (fun _ => rfl) (unused can.1 (.inl can.2))
    · cases stepped
  | modify p b _ | releasesleep p b =>
    dsimp only [Virtio.step] at stepped
    split at stepped
    · next can =>
      cases stepped
      exact inv.setBuf (fun _ => rfl) (unused can.1 (.inr can.2))
    · cases stepped
  | rw p b write =>
    dsimp only [Virtio.step] at stepped
    split at stepped
    · next can =>
      cases stepped
      refine inv.enters can.1 ⟨rfl, rfl, rfl⟩ rfl fun b' is => ?_
      cases is
      exact can.2
    · cases stepped
  | intr p =>
    dsimp only [Virtio.step] at stepped
    split at stepped
    · next at_ =>
      cases stepped
      exact inv.enters at_ ⟨rfl, rfl, rfl⟩ rfl nofun
    · cases stepped
  | run p => exact inv.runs stepped
  | take => exact inv.takes stepped
  | complete head => exact inv.completes stepped
  | post head => exact inv.posts stepped
  | count => exact inv.counts stepped

theorem Inv.reachable (reach : (recorded P B).Reachable x) : Inv x.1 x.2 := by
  refine reach.invariant (P := fun x => Inv x.1 x.2) ?_ ?_
  · rintro ⟨s, t⟩ ⟨⟨blocks, start⟩, first⟩
    rw [start, first]
    exact Inv.init blocks
  · rintro ⟨s, t⟩ ⟨a, u⟩ ⟨s', t'⟩ inv ⟨stepped, noted⟩
    have stepped : exec s a = some (s', u) := stepped
    rw [noted]
    unfold exec at stepped
    split at stepped
    · obtain ⟨s1, is, ⟨⟩⟩ := Option.map_eq_some_iff.mp stepped
      exact inv.step is
    · cases stepped

/-- The descriptors from `i` on, as `next` and its flag say. -/
def Disk.chain (d : Disk B) : Nat → Nat → List Nat
  | 0, _ => []
  | fuel + 1, i =>
    i :: if (d.desc i).flags &&& VRING_DESC_F_NEXT ≠ 0 then d.chain fuel (d.desc i).next else []

/-- Requests have descriptors of their own, and each is completed and delivered once. -/
structure Exclusive (s : State P B) (t : Trace P) : Prop where
  /-- The descriptors that are free are those of no request. -/
  free : ∀ i < NUM, s.disk.free i = true ↔ ∀ p r, (s.pc p).request = some r → i ∉ r.idx
  /-- A request has three descriptors. -/
  distinct : ∀ p r, (s.pc p).request = some r → r.idx.Nodup ∧ ∀ i ∈ r.idx, i < NUM
  disjoint : ∀ p q r r', p ≠ q → (s.pc p).request = some r → (s.pc q).request = some r' →
    r.idx.Disjoint r'.idx
  /-- They are a chain once they are filled in. -/
  chain : ∀ p r, (s.pc p).formatted = some r → s.disk.chain NUM r.idx0 = r.idx
  info : ∀ p r, (s.pc p).formatted = some r → (s.disk.info r.idx0).b = some r.b
  /-- What the device has not taken is in the avail ring as it was published. -/
  avail : t.taken ≤ t.published.length ∧ s.device.next = UInt16.ofNat t.taken ∧
    s.disk.avail.idx = UInt16.ofNat t.published.length ∧
    ∀ k, t.taken ≤ k → k < t.published.length →
      t.published[k]? = some (s.disk.avail.ring (k % NUM))
  /-- The head of a request that the device knows of is its own. -/
  owner : ∀ p r, (s.pc p).sent = some r → t.owner r.idx0 = some p
  /-- The buffer is given back by one delivery, after one completion of this very request. -/
  waiting : ∀ p r, (s.pc p).sent = some r → (s.buf r.b).disk = true → t.deliveries p = 0
  delivered : ∀ p r, (s.pc p).sent = some r → (s.buf r.b).disk = false →
    t.deliveries p = 1 ∧ t.completions p = 1
  once : ∀ p, t.deliveries p ≤ t.completions p ∧ t.completions p ≤ 1
  /-- Neither `free_desc` nor `virtio_disk_intr` panics. -/
  running : s.panicked = none

theorem Linked.chain {d : Disk B} (linked : Linked d.desc r) : d.chain NUM r.idx0 = r.idx := by
  have first : VRING_DESC_F_NEXT &&& VRING_DESC_F_NEXT ≠ 0 := by decide
  have second : ((if r.write then 0 else VRING_DESC_F_WRITE) ||| VRING_DESC_F_NEXT) &&&
      VRING_DESC_F_NEXT ≠ 0 := by
    cases r.write <;> decide
  have third : ¬ VRING_DESC_F_WRITE &&& VRING_DESC_F_NEXT ≠ 0 := by decide
  show d.chain (5 + 1 + 1 + 1) r.idx0 = _
  rw [Disk.chain, linked.first, if_pos first, Disk.chain, linked.second, if_pos second, Disk.chain,
    linked.third, if_neg third]
  rfl

/-- In every interleaving of any number of threads with the device, requests do not share
descriptors, and each completes once. -/
theorem requests_exclusive {x : State P B × Trace P} (reach : (recorded P B).Reachable x) :
    Exclusive x.1 x.2 := by
  have inv := Inv.reachable reach
  have chains := inv.chains
  have ledger := inv.ledger
  refine ⟨fun i small => ?_, chains.each, fun p q r r' ne mine other i mem mem' => ?_,
    fun p r is => ?_,
    fun p r is => (inv.formats p r is).info, ⟨inv.avail.le, inv.avail.start, inv.avail.idx,
      inv.avail.kept⟩, ledger.owner, ledger.waits, ledger.ends, ledger.once, inv.running⟩
  · rw [chains.free]
    exact and_iff_right small
  · exact ne (chains.apart p q r r' i mine other mem mem').symm
  · exact (inv.formats p r is).toLinked.chain

/-- The device moves the block of a request between its buffer and the disk, and no other. -/
theorem complete_moves (reach : (recorded P B).Reachable x)
    (completed : x.1.complete h = some s') : ∃ p r, (x.1.pc p).sent = some r ∧ r.idx0 = h ∧
      (r.write = true → s'.buf = x.1.buf ∧ s'.device.blocks =
        update x.1.device.blocks (x.1.buf r.b).sector (x.1.buf r.b).data) ∧
      (r.write = false → s'.device.blocks = x.1.device.blocks ∧ s'.buf = update x.1.buf r.b
        { x.1.buf r.b with data := x.1.device.blocks (x.1.buf r.b).sector }) := by
  have inv := Inv.reachable reach
  unfold State.complete at completed
  split at completed
  · next serving =>
    have under : h ∈ x.1.early x.2 := List.mem_append_right _ serving
    obtain ⟨p, r, sent, rfl, -⟩ := (inv.ledger.pending h).mp (List.mem_append_left _ under)
    rw [serve_eq (inv.formats p r (Pc.formatted_of_sent sent))] at completed
    cases completed
    refine ⟨p, r, sent, rfl, fun write => ?_, fun read => ?_⟩
    · rw [write]
      exact ⟨rfl, rfl⟩
    · rw [read]
      exact ⟨rfl, rfl⟩
  · cases completed

end Step

/-- Two requests at once; the second completes first. -/
def crossing : List (Action (Fin 3) Bool) :=
  [.acquiresleep 0 false 1, .rw 0 false false, .run 0, .run 0, .run 0, .run 0, .run 0, .run 0,
    .acquiresleep 1 true 2, .rw 1 true true, .run 1, .run 1, .run 1, .run 1, .run 1, .run 1,
    .take, .take, .complete 3, .post 3, .count,
    .intr 2, .run 2, .run 2, .run 2, .run 2, .run 2, .run 1, .run 1]

theorem requests_exclusive_crossing : ∃ x, (recorded (Fin 3) Bool).Reachable x ∧
    x.1.pc 0 = .sleepBuf ⟨false, false, 0, 1, 2⟩ ∧ x.1.pc 1 = .finish ⟨true, true, 3, 4, 5⟩ ∧
    x.2.deliveries 0 = 0 ∧ x.2.deliveries 1 = 1 ∧ x.2.completions 1 = 1 := by
  obtain ⟨x, reach, first, second, flag, flag'⟩ : ∃ x, (recorded (Fin 3) Bool).Reachable x ∧
      x.1.pc 0 = .sleepBuf ⟨false, false, 0, 1, 2⟩ ∧ x.1.pc 1 = .finish ⟨true, true, 3, 4, 5⟩ ∧
      (x.1.buf false).disk = true ∧ (x.1.buf true).disk = false :=
    Lts.exists_of_replay (fun _ _ => True) (s := {}) ⟨fun _ _ => 0, rfl⟩ crossing
      (by decide +kernel)
  have exclusive := requests_exclusive reach
  refine ⟨x, reach, first, second, ?_, ?_⟩
  · exact exclusive.waiting 0 _ (by rw [first]; rfl) flag
  · exact exclusive.delivered 1 _ (by rw [second]; rfl) flag'

theorem complete_moves_crossing : ∃ x s', (recorded (Fin 3) Bool).Reachable x ∧
    x.1.complete 3 = some s' ∧ s'.buf = x.1.buf ∧ s'.device.blocks =
      update x.1.device.blocks (x.1.buf true).sector (x.1.buf true).data := by
  obtain ⟨x, reach, serving, mine⟩ : ∃ x, (recorded (Fin 3) Bool).Reachable x ∧
      (x.1.complete 3).isSome ∧
      ∀ p, ((x.1.pc p).sent.all fun r => r.idx0 = 3 → r.write = true ∧ r.b = true) = true :=
    Lts.exists_of_replay (fun _ _ => True) (s := {}) ⟨fun _ _ => 0, rfl⟩ (crossing.take 18)
      (by decide +kernel)
  obtain ⟨s', completed⟩ := Option.isSome_iff_exists.mp serving
  obtain ⟨p, r, sent, head, write, -⟩ := complete_moves reach completed
  have is := mine p
  simp only [sent, Option.all_some, head, forall_const, decide_eq_true_eq] at is
  rw [← is.2]
  exact ⟨x, s', reach, completed, write is.1⟩

end Xv6.Virtio
