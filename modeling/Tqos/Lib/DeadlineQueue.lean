import Mathlib.Data.List.Sort

/-!
# Queues ordered by deadline

A timer queue holds entries with a deadline and hands them out earliest first; entries with equal
deadlines leave in the order in which they came. The order is a field of the structure, so a queue
out of order cannot be built and no lemma has to carry the hypothesis.

## Main results

* `items_add_perm` — adding an entry adds exactly that entry
* `popDue_eq_some` — what leaves is the head, it is due, and the rest stays as it was
* `key_le_of_items_eq_cons` — nothing behind the head has an earlier deadline
-/

namespace Tqos

/-- Something to be run at a deadline. -/
structure Timed (η : Type*) where
  /-- The time from which on the entry is due. -/
  key : ℕ
  /-- What is to be run. -/
  handler : η
deriving DecidableEq, Repr

/-- A list of entries in nondecreasing order of their deadlines. -/
structure DeadlineQueue (η : Type*) where
  /-- The entries, the earliest deadline first. -/
  items : List (Timed η)
  /-- The order that makes the head the earliest entry. -/
  sorted : items.Pairwise fun a b => a.key ≤ b.key

namespace DeadlineQueue

variable {η : Type*} {q r : DeadlineQueue η} {a b : Timed η} {now : ℕ}

@[ext] theorem ext (h : q.items = r.items) : q = r := by
  cases q; cases r; cases h; rfl

instance [DecidableEq η] : DecidableEq (DeadlineQueue η) := fun q r =>
  decidable_of_iff (q.items = r.items) ⟨ext, congrArg _⟩

/-- The queue with nothing in it. -/
def empty : DeadlineQueue η := ⟨[], .nil⟩

@[simp] theorem items_empty : (empty : DeadlineQueue η).items = [] := rfl

/-- Inserting behind every entry whose deadline is not later keeps the order. -/
theorem pairwise_orderedInsert {l : List (Timed η)} (h : l.Pairwise fun a b => a.key ≤ b.key)
    (a : Timed η) :
    (l.orderedInsert (fun a b => a.key < b.key) a).Pairwise fun a b => a.key ≤ b.key := by
  induction l with
  | nil => simp
  | cons b l ih =>
    obtain ⟨hb, hl⟩ := List.pairwise_cons.mp h
    rw [List.orderedInsert_cons]
    split
    · rename_i hab
      refine List.pairwise_cons.mpr ⟨fun c hc => ?_, h⟩
      rcases List.mem_cons.mp hc with rfl | hc
      · exact hab.le
      · exact hab.le.trans (hb c hc)
    · rename_i hab
      refine List.pairwise_cons.mpr ⟨fun c hc => ?_, ih hl⟩
      rcases (List.mem_orderedInsert _).mp hc with rfl | hc
      · exact Nat.le_of_not_lt hab
      · exact hb c hc

/-- Put an entry behind every entry whose deadline is not later. -/
def add (q : DeadlineQueue η) (a : Timed η) : DeadlineQueue η :=
  ⟨q.items.orderedInsert (fun a b => a.key < b.key) a, pairwise_orderedInsert q.sorted a⟩

theorem items_add_perm (q : DeadlineQueue η) (a : Timed η) :
    (q.add a).items.Perm (a :: q.items) :=
  List.perm_orderedInsert _ _ _

@[simp] theorem mem_items_add : b ∈ (q.add a).items ↔ b = a ∨ b ∈ q.items := by
  simp [(items_add_perm q a).mem_iff]

/-- Take the earliest entry out, if it is due at `now`. -/
def popDue (q : DeadlineQueue η) (now : ℕ) : Option (Timed η × DeadlineQueue η) :=
  match q with
  | ⟨[], _⟩ => none
  | ⟨a :: l, h⟩ => if a.key ≤ now then some (a, ⟨l, (List.pairwise_cons.mp h).2⟩) else none

/-- What leaves is the head of the queue and is due; the tail is what stays. -/
theorem popDue_eq_some (h : q.popDue now = some (a, r)) :
    q.items = a :: r.items ∧ a.key ≤ now := by
  obtain ⟨_ | ⟨b, l⟩, hs⟩ := q
  · simp [popDue] at h
  · simp only [popDue, Option.ite_none_right_eq_some, Option.some.injEq, Prod.mk.injEq] at h
    obtain ⟨hk, rfl, rfl⟩ := h
    exact ⟨rfl, hk⟩

/-- The head of a queue has the earliest deadline of all. -/
theorem key_le_of_items_eq_cons (hq : q.items = a :: r.items) (hb : b ∈ r.items) :
    a.key ≤ b.key := by
  have hs := q.sorted
  rw [hq] at hs
  exact (List.pairwise_cons.mp hs).1 b hb

/-- The queue without its head. -/
def tail (q : DeadlineQueue η) : DeadlineQueue η := ⟨q.items.tail, q.sorted.tail⟩

/-- **The place of a new entry**: behind what is not later, and in front of what is. -/
theorem items_add_of_append {l₁ l₂ : List (Timed η)} (hq : q.items = l₁ ++ l₂)
    (h₁ : ∀ b ∈ l₁, b.key ≤ a.key) (h₂ : ∀ b ∈ l₂, a.key < b.key) :
    (q.add a).items = l₁ ++ a :: l₂ := by
  show q.items.orderedInsert (fun a b => a.key < b.key) a = _
  rw [hq]
  clear hq
  induction l₁ with
  | nil =>
    cases l₂ with
    | nil => rfl
    | cons b l₂ => exact if_pos (h₂ b List.mem_cons_self)
  | cons b l₁ ih =>
    rw [List.cons_append, List.orderedInsert_cons,
      if_neg (Nat.not_lt.mpr (h₁ b List.mem_cons_self)),
      ih fun c hc => h₁ c (List.mem_cons_of_mem _ hc)]
    rfl

/-- The place of a new entry exists. -/
theorem exists_items_add (q : DeadlineQueue η) (a : Timed η) : ∃ l₁ l₂, q.items = l₁ ++ l₂ ∧
    (q.add a).items = l₁ ++ a :: l₂ ∧ (∀ b ∈ l₁, b.key ≤ a.key) ∧ ∀ b ∈ l₂, a.key < b.key := by
  obtain ⟨l, hl⟩ := q
  induction l with
  | nil => exact ⟨[], [], rfl, rfl, List.forall_mem_nil _, List.forall_mem_nil _⟩
  | cons b l ih =>
    obtain ⟨hb, hl'⟩ := List.pairwise_cons.mp hl
    by_cases hab : a.key < b.key
    · refine ⟨[], b :: l, rfl, if_pos hab, List.forall_mem_nil _, fun c hc => ?_⟩
      rcases List.mem_cons.mp hc with rfl | hc
      · exact hab
      · exact hab.trans_le (hb c hc)
    · obtain ⟨l₁, l₂, heq, hadd, h₁, h₂⟩ := ih hl'
      refine ⟨b :: l₁, l₂, congrArg (b :: ·) heq, ?_, ?_, h₂⟩
      · exact (if_neg hab).trans (congrArg (b :: ·) hadd)
      · exact List.forall_mem_cons.mpr ⟨Nat.le_of_not_lt hab, h₁⟩

/-! ## Part of a queue -/

/-- The entries whose handler satisfies `p`. -/
def filter (p : η → Bool) (q : DeadlineQueue η) : DeadlineQueue η :=
  ⟨q.items.filter fun a => p a.handler, q.sorted.filter _⟩

@[simp] theorem mem_items_filter {p : η → Bool} :
    b ∈ (q.filter p).items ↔ b ∈ q.items ∧ p b.handler = true := by
  simp [filter]

/-- An entry that is earlier than all others goes to the front. -/
theorem orderedInsert_of_lt {l : List (Timed η)} (h : ∀ b ∈ l, a.key < b.key) :
    l.orderedInsert (fun a b => a.key < b.key) a = a :: l := by
  cases l with
  | nil => rfl
  | cons b l => rw [List.orderedInsert_cons, if_pos (h b List.mem_cons_self)]

/-- Adding to a queue adds to the part the entry belongs to. -/
theorem filter_add (p : η → Bool) (q : DeadlineQueue η) (a : Timed η) :
    (q.add a).filter p = if p a.handler then (q.filter p).add a else q.filter p := by
  obtain ⟨l, hl⟩ := q
  have hmain : ((l.orderedInsert (fun a b => a.key < b.key) a).filter fun b => p b.handler) =
      if p a.handler then (l.filter fun b => p b.handler).orderedInsert
        (fun a b => a.key < b.key) a else l.filter fun b => p b.handler := by
    induction l with
    | nil => by_cases ha : p a.handler = true <;> simp [ha]
    | cons b l ih =>
      obtain ⟨hb, hl'⟩ := List.pairwise_cons.mp hl
      rw [List.orderedInsert_cons]
      by_cases hab : a.key < b.key
      · rw [if_pos hab, List.filter_cons]
        split
        · refine (orderedInsert_of_lt fun c hc => ?_).symm
          rcases List.mem_cons.mp (List.mem_of_mem_filter hc) with rfl | hc
          · exact hab
          · exact hab.trans_le (hb c hc)
        · rfl
      · rw [if_neg hab, List.filter_cons, List.filter_cons, ih hl']
        by_cases hpb : p b.handler = true
        · rw [if_pos hpb, if_pos hpb, List.orderedInsert_cons, if_neg hab]
          split <;> rfl
        · rw [if_neg hpb, if_neg hpb]
  refine ext ?_
  by_cases ha : p a.handler = true
  · simpa [filter, add, ha] using hmain
  · simpa [filter, add, ha] using hmain

/-- When the earliest entry leaves, it leaves the part it belongs to. -/
theorem items_filter_popDue (p : η → Bool) (h : q.popDue now = some (a, r)) :
    (q.filter p).items = if p a.handler then a :: (r.filter p).items else (r.filter p).items := by
  show (q.items.filter fun b => p b.handler) = _
  rw [(popDue_eq_some h).1]
  exact List.filter_cons

/-! ## Counting -/

section Count

variable [DecidableEq η] {h : η}

/-- How many entries have the handler `h`. -/
def count (h : η) (q : DeadlineQueue η) : ℕ := q.items.countP fun a => decide (a.handler = h)

@[simp] theorem count_empty : (empty : DeadlineQueue η).count h = 0 := rfl

@[simp] theorem count_add : (q.add a).count h = q.count h + if a.handler = h then 1 else 0 := by
  rw [count, (items_add_perm q a).countP_eq, List.countP_cons]
  simp [count]

theorem count_of_items_eq_cons (hq : q.items = a :: r.items) :
    q.count h = r.count h + if a.handler = h then 1 else 0 := by
  rw [count, hq, List.countP_cons]
  simp [count]

/-- The part a handler belongs to has all its entries. -/
theorem count_filter {p : η → Bool} (hp : p h = true) : (q.filter p).count h = q.count h := by
  rw [count, filter, List.countP_filter]
  refine List.countP_congr fun a _ => ?_
  simp only [Bool.and_eq_true, decide_eq_true_eq]
  exact and_iff_left_of_imp fun ha => ha ▸ hp

theorem count_pos : 0 < q.count h ↔ ∃ b ∈ q.items, b.handler = h := by
  simp [count, List.countP_pos_iff]

end Count

end DeadlineQueue

end Tqos
