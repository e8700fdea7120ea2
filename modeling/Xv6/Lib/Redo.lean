import Mathlib.Logic.Function.Basic

/-!
# Lists of writes

A store is a function from addresses to contents. `writes ws` applies a list of
writes in order. The rules are those redo recovery rests on: a write to an
address the list rewrites later is lost (`writes_update`), so applying the list
again after a part of it has been applied gives the same store; and a list whose
writes the store already shows changes nothing (`writes_eq_self`).
-/

namespace Redo

open Function

variable {α β : Type} [DecidableEq α]

/-- Apply the writes `ws` to the store `d`, in order. -/
def writes (ws : List (α × β)) (d : α → β) : α → β :=
  ws.foldl (fun d w => update d w.1 w.2) d

@[simp] theorem writes_nil (d : α → β) : writes [] d = d := rfl

@[simp] theorem writes_cons (w : α × β) (ws : List (α × β)) (d : α → β) :
    writes (w :: ws) d = writes ws (update d w.1 w.2) := rfl

theorem writes_append (ws vs : List (α × β)) (d : α → β) :
    writes (ws ++ vs) d = writes vs (writes ws d) :=
  List.foldl_append

theorem writes_of_not_mem (absent : a ∉ ws.map Prod.fst) (d : α → β) : writes ws d a = d a := by
  induction ws generalizing d with
  | nil => rfl
  | cons w ws ih =>
    simp only [List.map_cons, List.mem_cons, not_or] at absent
    rw [writes_cons, ih absent.2, update_of_ne absent.1]

theorem writes_congr {ws : List (α × β)} {a : α} {d d' : α → β}
    (agree : a ∉ ws.map Prod.fst → d a = d' a) : writes ws d a = writes ws d' a := by
  induction ws generalizing d d' with
  | nil => exact agree (by simp)
  | cons w ws ih =>
    rw [writes_cons, writes_cons]
    refine ih fun absent => ?_
    by_cases here : a = w.1
    · rw [here, update_self, update_self]
    · rw [update_of_ne here, update_of_ne here]
      exact agree (by simp [here, absent])

theorem writes_update {ws : List (α × β)} {a : α} (mem : a ∈ ws.map Prod.fst) (v : β)
    (d : α → β) : writes ws (update d a v) = writes ws d := by
  funext b
  refine writes_congr fun absent => ?_
  have other : b ≠ a := by
    rintro rfl
    exact absent mem
  rw [update_of_ne other]

theorem writes_eq_self {ws : List (α × β)} {d : α → β} (shown : ∀ w ∈ ws, d w.1 = w.2) :
    writes ws d = d := by
  induction ws with
  | nil => rfl
  | cons w ws ih =>
    have first : update d w.1 w.2 = d := by
      rw [← shown w (by simp), update_eq_self]
    rw [writes_cons, first]
    exact ih fun v mem => shown v (by simp [mem])

theorem writes_of_mem (nodup : (ws.map Prod.fst).Nodup) (mem : w ∈ ws) (d : α → β) :
    writes ws d w.1 = w.2 := by
  induction ws generalizing d with
  | nil => cases mem
  | cons v ws ih =>
    rw [List.map_cons, List.nodup_cons] at nodup
    rcases List.mem_cons.mp mem with rfl | later
    · rw [writes_cons, writes_of_not_mem nodup.1, update_self]
    · exact ih nodup.2 later _

end Redo
