import Tqos.Lib.Run

/-!
# Reading a queue on edges

A reader that is told of its queue only when something new comes, and takes one item each time it is
told. What comes while the reader has still to be told of what came before gives it nothing more to
act on, so that the reader falls behind by one; and there is nothing by which it could catch up.

The queue is part of a larger machine. `Watched` says that a step of the machine is, seen from the
queue, one event of it or none.

## Main results

* `lag_step` — only an arrival in front of which another one is still posted changes the lag
* `Watched.lag_run` — the lag at the end of a run, by counting these arrivals
-/

namespace Tqos

/-- A queue, with an edge that the reader is not yet told of and one that it is told of and has not
acted on. -/
structure EdgeQueue (α : Type*) where
  queue : List α
  posted : Bool
  told : Bool

/-- What can happen to the queue. -/
inductive EdgeEvent (α : Type*)
  | arrive (a : α)
  | tell
  | take

namespace EdgeQueue

variable {α σ ε : Type*} {q t : EdgeQueue α} {e : EdgeEvent α}

/-- One event. The reader is told of an edge only if there is something to read. -/
def step (q : EdgeQueue α) : EdgeEvent α → Option (EdgeQueue α)
  | .arrive a => some { q with queue := q.queue ++ [a], posted := true }
  | .tell =>
    if q.told then none
    else some { q with posted := false, told := q.posted && !q.queue.isEmpty }
  | .take => if q.told then some { q with queue := q.queue.tail, told := false } else none

/-- The edges that are still to be acted on. -/
def edges (q : EdgeQueue α) : ℕ := q.posted.toNat + q.told.toNat

/-- Every edge is for an item that is still there. -/
def Covered (q : EdgeQueue α) : Prop := q.edges ≤ q.queue.length

/-- The items that no edge is for. -/
def lag (q : EdgeQueue α) : ℕ := q.queue.length - q.edges

/-- The event is an arrival while an edge is posted. -/
def overtakes (q : EdgeQueue α) : EdgeEvent α → Bool
  | .arrive _ => q.posted
  | _ => false

/-- **The step lemma.** -/
theorem lag_step (hq : q.Covered) (h : q.step e = some t) :
    t.Covered ∧ t.lag = q.lag + if q.overtakes e then 1 else 0 := by
  obtain ⟨l, posted, told⟩ := q
  simp only [Covered, edges] at hq
  cases e with
  | arrive a =>
    obtain rfl := Option.some.inj h
    cases posted <;> cases told <;> simp [Covered, lag, edges, overtakes] at hq ⊢ <;> omega
  | tell =>
    simp only [step] at h
    split at h
    · cases h
    · rename_i htold
      obtain rfl := Option.some.inj h
      obtain rfl : told = false := by simpa using htold
      cases posted with
      | false => simp [Covered, lag, edges, overtakes]
      | true =>
        -- the edge is for an item, so that there is one to read
        obtain ⟨a, l, rfl⟩ := List.exists_cons_of_length_pos (Nat.lt_of_lt_of_le Nat.one_pos hq)
        simp [Covered, lag, edges, overtakes]
  | take =>
    simp only [step] at h
    split at h
    · rename_i htold
      obtain rfl := Option.some.inj h
      obtain rfl : told = true := htold
      cases posted <;> simp [Covered, lag, edges, overtakes] at hq ⊢
      omega
    · cases h

/-- Seen from a queue, a step of a machine is an event or nothing. -/
def Watched (step' : σ → ε → Option σ) (view : σ → EdgeQueue α)
    (seen : σ → ε → Option (EdgeEvent α)) : Prop :=
  ∀ u e v, step' u e = some v →
    (seen u e = none ∧ view v = view u) ∨ ∃ a, seen u e = some a ∧ (view u).step a = some (view v)

/-- The event is an arrival while an edge is posted, if it is one of the queue. -/
def overtakesIn (view : σ → EdgeQueue α) (seen : σ → ε → Option (EdgeEvent α)) (u : σ) (e : ε) :
    Bool := (seen u e).any (view u).overtakes

/-- **The run lemma.** The lag grows by one with each arrival while an edge is posted, and changes
by nothing else. -/
theorem Watched.lag_run {step' : σ → ε → Option σ} {view : σ → EdgeQueue α}
    {seen : σ → ε → Option (EdgeEvent α)} (hw : Watched step' view seen) {s u : σ} {es : List ε}
    (hs : (view s).Covered) (hu : Run.run step' s es = some u) : (view u).Covered ∧
      (view u).lag = (view s).lag + Run.countAlong step' (overtakesIn view seen) s es := by
  induction es generalizing s with
  | nil =>
    obtain rfl := Option.some.inj hu
    exact ⟨hs, rfl⟩
  | cons e es ih =>
    rw [Run.run_cons, Option.bind_eq_some_iff] at hu
    obtain ⟨v, hv, hu⟩ := hu
    rw [Run.countAlong_cons _ hv, overtakesIn]
    rcases hw s e v hv with ⟨hnone, hview⟩ | ⟨a, hsome, hstep⟩
    · obtain ⟨hcov, hlag⟩ := ih (hview ▸ hs) hu
      rw [hlag, hview, hnone]
      exact ⟨hcov, by simp⟩
    · obtain ⟨hcovv, hlagv⟩ := lag_step hs hstep
      obtain ⟨hcov, hlag⟩ := ih hcovv hu
      rw [hlag, hlagv, hsome, Option.any_some, Nat.add_assoc]
      exact ⟨hcov, rfl⟩

end EdgeQueue

end Tqos
