import Mathlib.Data.List.Perm.Subperm
import Xv6.Virtio.Inv

/-!
# The way of a request

A request goes through the avail ring to the device and comes back through the used ring. The
heads that are under way, in the rings or with the device, are those of the requests whose
buffer still belongs to the device, each of them once (`Ledger`). As they are different
descriptors, no ring ever has to hold more than `NUM` of them, and the counters of 16 bits tell
where they are although they wrap around (`Ring`).
-/

set_option linter.unusedSectionVars false

namespace Xv6.Virtio

open Function (update update_self update_of_ne)

/-! ## Rings -/

/-- The entries of the list `l` from the `n`th on are in a ring. The counters are numbers of 16
bits. -/
structure Ring (idx start : UInt16) (ring : Nat → Nat) (l : List Nat) (n : Nat) : Prop where
  idx : idx = UInt16.ofNat l.length
  start : start = UInt16.ofNat n
  le : n ≤ l.length
  kept : ∀ k, n ≤ k → k < l.length → l[k]? = some (ring (k % NUM))

section Ring

variable {idx start : UInt16} {ring : Nat → Nat} {l : List Nat} {n x : Nat}

theorem slot_ofNat (n : Nat) : (UInt16.ofNat n).toNat % NUM = n % NUM := by
  exact Nat.mod_mod_of_dvd _ (by decide)

theorem ofNat_succ (n : Nat) : UInt16.ofNat (n + 1) = UInt16.ofNat n + 1 := by
  rw [UInt16.ofNat_add]
  rfl

section

variable (is : Ring idx start ring l n)

include is

theorem Ring.slot : idx.toNat % NUM = l.length % NUM := by
  rw [is.idx, slot_ofNat]

/-- The counters of 16 bits differ only if there is an entry left. -/
theorem Ring.below (more : start ≠ idx) : n < l.length := by
  have differ : n ≠ l.length := by
    rintro rfl
    exact more (is.start.trans is.idx.symm)
  have := is.le
  omega

/-- An entry behind the last is written; it overwrites none that is still needed. -/
theorem Ring.write (near : l.length < n + NUM) (x : Nat) :
    Ring idx start (update ring (idx.toNat % NUM) x) l n := by
  refine ⟨is.idx, is.start, is.le, fun k low high => ?_⟩
  have other : k % NUM ≠ l.length % NUM := by
    unfold NUM at near ⊢
    omega
  rw [is.slot, update_of_ne other]
  exact is.kept k low high

theorem Ring.count (last : ring (l.length % NUM) = x) :
    Ring (idx + 1) start ring (l ++ [x]) n := by
  have length : (l ++ [x]).length = l.length + 1 := List.length_append
  refine ⟨by rw [length, ofNat_succ, is.idx], is.start,
    by have := is.le; omega, fun k low high => ?_⟩
  by_cases end_ : k = l.length
  · rw [end_, List.getElem?_concat_length, last]
  · rw [List.getElem?_append_left (by omega)]
    exact is.kept k low (by omega)

theorem Ring.take (below : n < l.length) :
    Ring idx (start + 1) ring l (n + 1) :=
  ⟨is.idx, by rw [ofNat_succ, is.start], below, fun k low => is.kept k (Nat.le_of_succ_le low)⟩

theorem Ring.drop (below : n < l.length) :
    l.drop n = ring (start.toNat % NUM) :: l.drop (n + 1) := by
  have entry := is.kept n (Nat.le_refl n) below
  rw [List.getElem?_eq_getElem below] at entry
  rw [List.drop_eq_getElem_cons below, Option.some.inj entry, is.start, slot_ofNat]

end

end Ring

/-! ## Requests under way -/

section Ledger

variable {P B : Type} [DecidableEq P] [DecidableEq B]

/-- Each request that the device knows of is somewhere, not completed yet (`early`) or completed
(`late`), and nothing else is. It is completed and delivered once. -/
structure Ledger (sent : P → Option (Request B)) (flag : B → Bool) (early late : List Nat)
    (owner : Nat → Option P) (completions deliveries : P → Nat) : Prop where
  nodup : (early ++ late).Nodup
  pending : ∀ h, h ∈ early ++ late ↔ ∃ p r, sent p = some r ∧ r.idx0 = h ∧ flag r.b = true
  owner : ∀ p r, sent p = some r → owner r.idx0 = some p
  early : ∀ p r, sent p = some r → r.idx0 ∈ early → completions p = 0
  late : ∀ p r, sent p = some r → r.idx0 ∈ late → completions p = 1
  waits : ∀ p r, sent p = some r → flag r.b = true → deliveries p = 0
  ends : ∀ p r, sent p = some r → flag r.b = false → deliveries p = 1 ∧ completions p = 1
  once : ∀ p, deliveries p ≤ completions p ∧ completions p ≤ 1

variable {sent : P → Option (Request B)} {flag flag' : B → Bool}
  {early late early' late' : List Nat}
  {owner : Nat → Option P} {completions deliveries : P → Nat} {p q : P} {r : Request B} {h : Nat}

theorem Ledger.moves (ledger : Ledger sent flag early late owner completions deliveries)
    (perm : early'.Perm early) (perm' : late'.Perm late) :
    Ledger sent flag early' late' owner completions deliveries where
  nodup := (perm.append perm').nodup_iff.mpr ledger.nodup
  pending h := (perm.append perm').mem_iff.trans (ledger.pending h)
  owner := ledger.owner
  early p r is mem := ledger.early p r is (perm.mem_iff.mp mem)
  late p r is mem := ledger.late p r is (perm'.mem_iff.mp mem)
  waits := ledger.waits
  ends := ledger.ends
  once := ledger.once

theorem Ledger.goes (ledger : Ledger (Pc.sent ∘ pc) flag early late owner completions deliveries)
    (same : c.sent = (pc p).sent) :
    Ledger (Pc.sent ∘ update pc p c) flag early late owner completions deliveries := by
  rw [comp_update_same _ same]
  exact ledger

section

variable (ledger : Ledger sent flag early late owner completions deliveries)

include ledger

theorem Ledger.flags
    (same : ∀ p r, sent p = some r → flag' r.b = flag r.b) :
    Ledger sent flag' early late owner completions deliveries where
  nodup := ledger.nodup
  pending h := by
    rw [ledger.pending]
    constructor
    · rintro ⟨p, r, is, head, up⟩
      exact ⟨p, r, is, head, (same p r is).trans up⟩
    · rintro ⟨p, r, is, head, up⟩
      exact ⟨p, r, is, head, (same p r is).symm.trans up⟩
  owner := ledger.owner
  early := ledger.early
  late := ledger.late
  waits p r is up := ledger.waits p r is ((same p r is).symm.trans up)
  ends p r is down := ledger.ends p r is ((same p r is).symm.trans down)
  once := ledger.once

theorem Ledger.fresh
    (heads : ∀ q r', sent q = some r' → r'.idx0 ≠ r.idx0) : r.idx0 ∉ early ++ late := by
  intro mem
  obtain ⟨q, r', is, same, -⟩ := (ledger.pending _).mp mem
  exact heads q r' is same

/-- A request is put into the avail ring. -/
theorem Ledger.publish
    (unsent : sent p = none) (raised : flag r.b = true)
    (heads : ∀ q r', sent q = some r' → r'.idx0 ≠ r.idx0) :
    Ledger (update sent p (some r)) flag (r.idx0 :: early) late
      (update owner r.idx0 (some p)) (update completions p 0)
      (update deliveries p 0) where
  nodup := List.nodup_cons.mpr ⟨ledger.fresh heads, ledger.nodup⟩
  pending h := by
    rw [List.cons_append, List.mem_cons, ledger.pending]
    constructor
    · rintro (rfl | ⟨q, r', is, head, up⟩)
      · exact ⟨p, r, update_self .., rfl, raised⟩
      · refine ⟨q, r', update_eq_iff.mpr (.inr ⟨?_, is⟩), head, up⟩
        rintro rfl
        rw [unsent] at is
        cases is
    · rintro ⟨q, r', is, head, up⟩
      rcases update_eq_iff.mp is with ⟨-, ⟨⟩⟩ | ⟨-, is⟩
      · exact .inl head.symm
      · exact .inr ⟨q, r', is, head, up⟩
  owner q r' is := by
    rcases update_eq_iff.mp is with ⟨rfl, ⟨⟩⟩ | ⟨-, is⟩
    · exact update_self ..
    · exact (update_of_ne (heads q r' is) ..).trans (ledger.owner q r' is)
  early q r' is mem := by
    rcases update_eq_iff.mp is with ⟨rfl, -⟩ | ⟨other, is⟩
    · exact update_self ..
    · have old := (List.mem_cons.mp mem).resolve_left (heads q r' is)
      exact (update_of_ne other ..).trans (ledger.early q r' is old)
  late q r' is mem := by
    rcases update_eq_iff.mp is with ⟨rfl, ⟨⟩⟩ | ⟨other, is⟩
    · exact absurd (List.mem_append_right _ mem) (ledger.fresh heads)
    · exact (update_of_ne other ..).trans (ledger.late q r' is mem)
  waits q r' is up := by
    rcases update_eq_iff.mp is with ⟨rfl, -⟩ | ⟨other, is⟩
    · exact update_self ..
    · exact (update_of_ne other ..).trans (ledger.waits q r' is up)
  ends q r' is down := by
    rcases update_eq_iff.mp is with ⟨-, ⟨⟩⟩ | ⟨other, is⟩
    · rw [raised] at down
      cases down
    · rw [update_of_ne other, update_of_ne other]
      exact ledger.ends q r' is down
  once q := by
    by_cases here : q = p
    · rw [here, update_self, update_self]
      omega
    · rw [update_of_ne here, update_of_ne here]
      exact ledger.once q

theorem Ledger.finish
    (has : sent p = some r) (given : flag r.b = false) :
    Ledger (update sent p none) flag early late owner completions deliveries := by
  have old {q : P} {r' : Request B} (is : update sent p none q = some r') :
      sent q = some r' := by
    rcases update_eq_iff.mp is with ⟨-, ⟨⟩⟩ | ⟨-, is⟩
    exact is
  refine ⟨ledger.nodup, fun h => ?_, fun q r' is => ledger.owner q r' (old is),
    fun q r' is => ledger.early q r' (old is), fun q r' is => ledger.late q r' (old is),
    fun q r' is => ledger.waits q r' (old is), fun q r' is =>
      ledger.ends q r' (old is), ledger.once⟩
  rw [ledger.pending]
  constructor
  · rintro ⟨q, r', is, head, up⟩
    refine ⟨q, r', update_eq_iff.mpr (.inr ⟨?_, is⟩), head, up⟩
    rintro rfl
    rw [has] at is
    cases is
    rw [given] at up
    cases up
  · rintro ⟨q, r', is, rest⟩
    exact ⟨q, r', old is, rest⟩

/-- The device is done with a head, which is that of one request. -/
theorem Ledger.complete
    (perm : early.Perm (h :: early')) : ∃ q r, sent q = some r ∧ r.idx0 = h ∧ owner h = some q ∧
      Ledger sent flag early' (h :: late) owner (update completions q (completions q + 1))
        deliveries := by
  have mem : h ∈ early := perm.mem_iff.mpr List.mem_cons_self
  obtain ⟨q, r, has, rfl, up⟩ := (ledger.pending h).mp (List.mem_append_left _ mem)
  have mine := ledger.owner q r has
  have head {q' : P} {r' : Request B} (is : sent q' = some r') (ne : q' ≠ q) :
      r'.idx0 ≠ r.idx0 := by
    intro same
    have other := ledger.owner q' r' is
    rw [same, mine] at other
    exact ne (Option.some.inj other).symm
  have moved : (early' ++ r.idx0 :: late).Perm (early ++ late) :=
    List.perm_middle.trans (perm.symm.append_right late)
  have nodup := moved.nodup_iff.mpr ledger.nodup
  refine ⟨q, r, has, rfl, mine, nodup, fun h => moved.mem_iff.trans
    (ledger.pending h), ledger.owner,
    fun q' r' is mem' => ?_, fun q' r' is mem' => ?_, ledger.waits,
      fun q' r' is down => ?_, fun q' => ?_⟩
  · have ne : q' ≠ q := by
      rintro rfl
      rw [has] at is
      cases is
      exact (List.nodup_append.mp nodup).2.2 _ mem' _ List.mem_cons_self rfl
    rw [update_of_ne ne]
    exact ledger.early q' r' is (perm.mem_iff.mpr (List.mem_cons_of_mem _ mem'))
  · by_cases here : q' = q
    · rw [here, update_self, ledger.early q r has mem]
    · rw [update_of_ne here]
      exact ledger.late q' r' is ((List.mem_cons.mp mem').resolve_left (head is here))
  · have ne : q' ≠ q := by
      rintro rfl
      rw [has] at is
      cases is
      rw [up] at down
      cases down
    rw [update_of_ne ne]
    exact ledger.ends q' r' is down
  · have once := ledger.once q'
    by_cases here : q' = q
    · rw [here] at once ⊢
      rw [update_self, ledger.early q r has mem]
      omega
    · rw [update_of_ne here]
      exact once

/-- The interrupt handler gives the buffer of a request back. -/
theorem Ledger.handle
    (has : sent q = some r) (up : flag r.b = true) (perm : late.Perm (r.idx0 :: late'))
    (bufs : ∀ q' r', sent q' = some r' → r'.b = r.b → q' = q) :
    Ledger sent (update flag r.b false) early late' owner completions
      (update deliveries q (deliveries q + 1)) := by
  have mem : r.idx0 ∈ late := perm.mem_iff.mpr List.mem_cons_self
  have moved : (early ++ late).Perm (r.idx0 :: (early ++ late')) :=
    (perm.append_left early).trans List.perm_middle
  obtain ⟨gone, nodup⟩ := List.nodup_cons.mp (moved.nodup_iff.mp ledger.nodup)
  have other {q' : P} {r' : Request B} (is : sent q' = some r') (ne : q' ≠ q) :
      update flag r.b false r'.b = flag r'.b :=
    update_of_ne (fun same => ne (bufs q' r' is same)) ..
  have mine {r' : Request B} (is : sent q = some r') : r' = r := Option.some.inj (is.symm.trans has)
  refine ⟨nodup, fun h => ?_, ledger.owner, ledger.early, fun q' r' is mem' => ?_,
    fun q' r' is down => ?_, fun q' r' is down => ?_, fun q' => ?_⟩
  · constructor
    · intro under
      obtain ⟨q', r', is, rfl, up'⟩ := (ledger.pending h).mp
        (moved.mem_iff.mpr (List.mem_cons_of_mem _ under))
      have ne : q' ≠ q := by
        rintro rfl
        exact gone (mine is ▸ under)
      exact ⟨q', r', is, rfl, (other is ne).trans up'⟩
    · rintro ⟨q', r', is, rfl, up'⟩
      have ne : q' ≠ q := by
        rintro rfl
        rw [mine is, update_self] at up'
        cases up'
      rw [other is ne] at up'
      have before := moved.mem_iff.mp ((ledger.pending r'.idx0).mpr ⟨q', r', is, rfl, up'⟩)
      refine (List.mem_cons.mp before).resolve_left fun same => ne ?_
      have both := ledger.owner q' r' is
      rw [same, ledger.owner q r has] at both
      exact (Option.some.inj both).symm
  · exact ledger.late q' r' is (perm.mem_iff.mpr (List.mem_cons_of_mem _ mem'))
  · have ne : q' ≠ q := by
      rintro rfl
      rw [mine is, update_self] at down
      cases down
    rw [other is ne] at down
    rw [update_of_ne ne]
    exact ledger.waits q' r' is down
  · by_cases here : q' = q
    · rw [here, update_self, ledger.waits q r has up]
      exact ⟨rfl, ledger.late q r has mem⟩
    · rw [other is here] at down
      rw [update_of_ne here]
      exact ledger.ends q' r' is down
  · by_cases here : q' = q
    · rw [here, update_self, ledger.waits q r has up, ledger.late q r has mem]
      omega
    · rw [update_of_ne here]
      exact ledger.once q'

/-- No more heads are under way than there are descriptors. -/
theorem Ledger.length_le
    (small : ∀ p r, sent p = some r → r.idx0 < NUM) : (early ++ late).length ≤ NUM := by
  have sub : early ++ late ⊆ List.range NUM := fun x mem => by
    obtain ⟨p, r, is, rfl, -⟩ := (ledger.pending x).mp mem
    exact List.mem_range.mpr (small p r is)
  have := (List.subperm_of_subset ledger.nodup sub).length_le
  rwa [List.length_range] at this

end

end Ledger

/-! ## What a thread knows at its point -/

/-- The flag of its buffer is set until the device has completed the request; the head is in the
ring when it is to be counted; and there is an entry when `virtio_disk_intr` reads it. -/
def Knows {B : Type} (flag : B → Bool) (last : Nat) (more : Prop) : Pc B → Prop
  | .fill r => flag r.b = true
  | .publish r => flag r.b = true ∧ last = r.idx0
  | .finish r => flag r.b = false
  | .intrHandle => more
  | _ => True

theorem Knows.out {B : Type} {flag : B → Bool} {more : Prop} {c : Pc B} (out : c.inside = false) :
    Knows flag last more c := by
  cases c <;> trivial

end Xv6.Virtio
