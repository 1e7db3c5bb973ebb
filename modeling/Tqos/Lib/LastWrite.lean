import Mathlib.Data.List.Induction
import Mathlib.Logic.Function.Basic

/-!
# The last write wins

A state that events act on has fields, and an event sets a field or leaves it. Read through `get`,
such a field is after any list of events what the last of the events that set it left there. The
value an event *asks* for and the value it *leaves* are kept apart by a conversion `f`, so that the
same lemma covers a receiver that stores something else than what it was sent.

## Main results

* `get_foldl` — the field after a list of events
* `foldl_faithful_iff` — the field holds what was last asked for exactly when `f` fixes that value
* `foldl_update_of_mem` — when every key is written once, each holds what was written to it
-/

namespace Tqos

section LastWrite

variable {σ ε α : Type*} {step : σ → ε → σ} (get : σ → α) {w : ε → Option α} {f : α → α}

/-- The value of the last event in which `w` sees one. -/
def lastWrite (w : ε → Option α) (es : List ε) : Option α := (es.filterMap w).getLast?

@[simp] theorem lastWrite_nil (w : ε → Option α) : lastWrite w [] = none := rfl

theorem lastWrite_concat (w : ε → Option α) (es : List ε) (e : ε) :
    lastWrite w (es ++ [e]) = (w e).or (lastWrite w es) := by
  rw [lastWrite, List.filterMap_append, List.getLast?_append]
  congr 1
  cases h : w e <;> simp [h]

/-- **The last write wins.** If every event leaves in the field `f` of what it asks for, or the old
content when it asks for nothing, then so does every list of events. -/
theorem get_foldl (h : ∀ s e, get (step s e) = ((w e).map f).getD (get s)) (s : σ) (es : List ε) :
    get (es.foldl step s) = ((lastWrite w es).map f).getD (get s) := by
  induction es using List.reverseRecOn with
  | nil => rfl
  | append_singleton es e ih =>
    rw [List.foldl_append, List.foldl_cons, List.foldl_nil, h, ih, lastWrite_concat]
    cases w e <;> rfl

/-- The field holds what was last asked for exactly when the conversion does not change it. -/
theorem foldl_faithful_iff (h : ∀ s e, get (step s e) = ((w e).map f).getD (get s)) (s : σ)
    (es : List ε) :
    get (es.foldl step s) = (lastWrite w es).getD (get s) ↔
      ∀ v, lastWrite w es = some v → f v = v := by
  rw [get_foldl get h]
  cases hw : lastWrite w es with
  | none => simp
  | some v => simp

/-- What no event changes stays. -/
theorem get_foldl_of_fixed {β : Type*} (get : σ → β) (h : ∀ s e, get (step s e) = get s) (s : σ)
    (es : List ε) : get (es.foldl step s) = get s := by
  induction es generalizing s with
  | nil => rfl
  | cons e es ih => rw [List.foldl_cons, ih, h]

end LastWrite

/-! ## Writes to keys -/

section Keys

variable {κ β ε : Type*} [DecidableEq κ] (key : ε → κ) (val : ε → β) {e : ε} {es : List ε} {k : κ}

/-- A key that is not written keeps its value. -/
theorem foldl_update_of_notMem (h : k ∉ es.map key) (s : κ → β) :
    es.foldl (fun s e => Function.update s (key e) (val e)) s k = s k := by
  induction es generalizing s with
  | nil => rfl
  | cons e es ih =>
    rw [List.map_cons, List.mem_cons, not_or] at h
    rw [List.foldl_cons, ih h.2, Function.update_of_ne h.1]

/-- **A key that is written once** holds what was written. -/
theorem foldl_update_of_mem (hnodup : (es.map key).Nodup) (h : e ∈ es) (s : κ → β) :
    es.foldl (fun s e => Function.update s (key e) (val e)) s (key e) = val e := by
  induction es generalizing s with
  | nil => exact absurd h List.not_mem_nil
  | cons e' es ih =>
    rw [List.map_cons, List.nodup_cons] at hnodup
    rw [List.foldl_cons]
    rcases List.mem_cons.mp h with rfl | h
    · rw [foldl_update_of_notMem key val hnodup.1, Function.update_self]
    · exact ih hnodup.2 h _

end Keys

end Tqos
