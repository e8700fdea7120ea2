import Xv6.Log.Basic

/-!
# Transactions

A history keeps the updates of the open transaction, the committed transactions
in order (those whose header has reached the disk) and every update ever logged.
The updates of an operation stay together: `AllOrNone`.
-/

namespace Xv6.Log

/-- One `log_write` of an operation. -/
structure Update where
  op : Nat
  block : Nat
  data : Block

/-- The writes of a transaction, for `Redo.writes`. -/
def Update.write (u : Update) : Nat × Block := (u.block, u.data)

structure History where
  pending : List Update := []
  committed : List (List Update) := []
  erased : Nat := 0
  issued : List Update := []

def History.note (h : History) (_ : State) (l : Label) : History :=
  match l.2 with
  | some (.logged t b data) =>
    { h with pending := h.pending ++ [⟨t, b, data⟩], issued := h.issued ++ [⟨t, b, data⟩] }
  | some .committed => { h with committed := h.committed ++ [h.pending], pending := [] }
  | some .erased => { h with erased := h.erased + 1 }
  | some .crashed => { h with pending := [] }
  | none => h

def logged (start : Nat) (disk : Nat → Block) : Lts (State × History) Label :=
  (system start disk).observed {} History.note

/-- A transaction applied to a disk, and a list of them in order. -/
def applyTx (disk : Nat → Block) (tx : List Update) : Nat → Block :=
  Redo.writes (tx.map Update.write) disk

def applyTxs (disk : Nat → Block) (txs : List (List Update)) : Nat → Block :=
  txs.foldl applyTx disk

/-- The updates of operation `t` in a list. -/
def ofOp (t : Nat) (us : List Update) : List Update :=
  us.filter (·.op = t)

/-- All updates of an operation are in one transaction, or none is in any. -/
def AllOrNone (h : History) : Prop :=
  ∀ t, (∀ tx ∈ h.committed, ofOp t tx = []) ∨
    ∃ i, ∃ hi : i < h.committed.length, ofOp t h.committed[i] = ofOp t h.issued ∧
      ∀ j, ∀ hj : j < h.committed.length, j ≠ i → ofOp t h.committed[j] = []

/-! ## Operations stay together -/

/-- No update of operation `t` is committed; those in the open transaction are all
it has issued, unless a crash has ended it. -/
def Uncommitted (s : State) (h : History) (t : Nat) : Prop :=
  (∀ tx ∈ h.committed, ofOp t tx = []) ∧
    (ofOp t h.pending = ofOp t h.issued ∨ t ∉ s.active ∧ ofOp t h.pending = [])

/-- Operation `t` is over and one committed transaction has all its updates. -/
def Committed (s : State) (h : History) (t : Nat) : Prop :=
  t ∉ s.active ∧ ofOp t h.pending = [] ∧
    ∃ i, ∃ hi : i < h.committed.length, ofOp t h.committed[i] = ofOp t h.issued ∧
      ∀ j, ∀ hj : j < h.committed.length, j ≠ i → ofOp t h.committed[j] = []

/-- Between the header write of `commit` and the one that erases it. -/
def Phase.installing : Phase → Bool
  | .install _ => true
  | _ => false

structure Together (s : State) (h : History) : Prop where
  ops : ∀ t, Uncommitted s h t ∨ Committed s h t
  /-- The numbers from `nextOp` on have not been used. -/
  fresh : ∀ u ∈ h.issued, u.op < s.nextOp
  started : ∀ t ∈ s.active, t < s.nextOp
  /-- A commit erases only what it has committed. -/
  erased : h.erased + (if s.phase.installing then 1 else 0) ≤ h.committed.length

theorem Together.allOrNone (together : Together s h) : AllOrNone h := by
  intro t
  rcases together.ops t with absent | present
  · exact .inl absent.1
  · exact .inr present.2.2

variable {s s' : State} {h : History}

@[simp] theorem ofOp_append (t : Nat) (us vs : List Update) :
    ofOp t (us ++ vs) = ofOp t us ++ ofOp t vs := by
  simp [ofOp]

theorem ofOp_single_other (other : u.op ≠ t) : ofOp t [u] = [] := by
  simp [ofOp, other]

theorem ofOp_of_fresh (fresh : ∀ u ∈ us, u.op < t) : ofOp t us = [] := by
  refine List.filter_eq_nil_iff.mpr fun u mem => ?_
  have old := fresh u mem
  simp only [decide_eq_true_eq]
  omega

section

variable (together : Together s h)

include together

theorem Together.of_same (active : ∀ t ∈ s'.active, t ∈ s.active)
    (nextOp : s'.nextOp = s.nextOp)
    (phase : s'.phase.installing = true → s.phase.installing = true) : Together s' h where
  ops t := by
    rcases together.ops t with ⟨none, pending⟩ | ⟨closed, rest⟩
    · exact .inl ⟨none, pending.imp_right fun ended => ⟨fun mem => ended.1 (active t mem), ended.2⟩⟩
    · exact .inr ⟨fun mem => closed (active t mem), rest⟩
  fresh u mem := nextOp ▸ together.fresh u mem
  started t mem := nextOp ▸ together.started t (active t mem)
  erased := by
    have erased := together.erased
    grind

theorem Together.beginOp :
    Together { s with outstanding := outstanding, active := s.nextOp :: s.active,
                      nextOp := s.nextOp + 1 } h where
  ops t := by
    rcases together.ops t with ⟨none, pending⟩ | ⟨closed, rest⟩
    · refine .inl ⟨none, ?_⟩
      rcases pending with all | ⟨ended, gone⟩
      · exact .inl all
      · by_cases new : t = s.nextOp
        · subst new
          exact .inl (gone.trans (ofOp_of_fresh together.fresh).symm)
        · exact .inr ⟨by simp [new, ended], gone⟩
    · by_cases new : t = s.nextOp
      · -- the number is fresh, so the committed transaction that has all its updates has none
        subst new
        obtain ⟨gone, i, hi, whole, others⟩ := rest
        have noneIssued := ofOp_of_fresh together.fresh
        refine .inl ⟨fun tx mem => ?_, .inl (gone.trans noneIssued.symm)⟩
        obtain ⟨j, hj, rfl⟩ := List.getElem_of_mem mem
        by_cases same : j = i
        · subst same
          exact whole.trans noneIssued
        · exact others j hj same
      · exact .inr ⟨by simp [new, closed], rest⟩
  fresh u mem := Nat.lt_succ_of_lt (together.fresh u mem)
  started t mem := by
    rcases List.mem_cons.mp mem with rfl | old
    · exact Nat.lt_succ_self _
    · exact Nat.lt_succ_of_lt (together.started t old)
  erased := together.erased

theorem Together.logWrite (active : t ∈ s.active) :
    Together { s with io := io, lh := lh }
      { h with pending := h.pending ++ [⟨t, b, data⟩], issued := h.issued ++ [⟨t, b, data⟩] } where
  ops t' := by
    by_cases self : t' = t
    · subst self
      rcases together.ops t' with ⟨none, all | ⟨ended, -⟩⟩ | ⟨closed, -⟩
      · exact .inl ⟨none, .inl (by simp [all])⟩
      · exact absurd active ended
      · exact absurd active closed
    · have other : ofOp t' [⟨t, b, data⟩] = [] := ofOp_single_other fun same => self same.symm
      rcases together.ops t' with ⟨none, pending⟩ | ⟨closed, rest⟩
      · exact .inl ⟨none, by simpa [other] using pending⟩
      · exact .inr ⟨closed, by simpa [other] using rest⟩
  fresh u mem := by
    rcases List.mem_append.mp mem with old | new
    · exact together.fresh u old
    · cases List.mem_singleton.mp new
      exact together.started t active
  started := together.started
  erased := together.erased

theorem Together.commit (idle : s.active = []) :
    Together { s with io := io, phase := .install 0 }
      { h with committed := h.committed ++ [h.pending], pending := [] } where
  ops t := by
    have notActive : t ∉ s.active := by simp [idle]
    rcases together.ops t with ⟨none, all | ⟨-, gone⟩⟩ | ⟨-, gone, i, hi, whole, others⟩
    · refine .inr ⟨notActive, rfl, h.committed.length, by simp, by simpa using all, ?_⟩
      intro j hj other
      have old : j < h.committed.length := by
        rw [List.length_append, List.length_singleton] at hj
        omega
      simpa [List.getElem_append_left old] using none _ (List.getElem_mem old)
    · refine .inl ⟨fun tx mem => ?_, .inr ⟨notActive, rfl⟩⟩
      rcases List.mem_append.mp mem with old | new
      · exact none tx old
      · cases List.mem_singleton.mp new
        exact gone
    · refine .inr ⟨notActive, rfl, i, by simp; omega, ?_, ?_⟩
      · simpa [List.getElem_append_left hi] using whole
      · intro j hj other
        by_cases old : j < h.committed.length
        · simpa [List.getElem_append_left old] using others j old other
        · simpa [List.getElem_append_right (Nat.le_of_not_lt old)] using gone
  fresh := together.fresh
  started := together.started
  erased := by
    have erased := together.erased
    grind

theorem Together.crash :
    Together (off s.io.disk s.nextOp) { h with pending := [] } where
  ops t := by
    rcases together.ops t with ⟨none, -⟩ | ⟨-, -, rest⟩
    · exact .inl ⟨none, .inr ⟨by simp [off], rfl⟩⟩
    · exact .inr ⟨by simp [off], rfl, rest⟩
  fresh := together.fresh
  started := by simp [off]
  erased := by
    have erased := together.erased
    simp only [off, Phase.installing]
    grind

end

end Xv6.Log
