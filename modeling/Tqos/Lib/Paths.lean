import Mathlib.Data.List.Basic

/-!
# Paths

Names of files as they are resolved: absolute from the root, others from a working directory, with
`.` for the directory itself and `..` for the one above. Paths are lists of components, and there
are no links. The characters are of any type that has a separator and a dot.

## Main results

* `resolve_of_simple` — a name of one component stays in the working directory
* `resolve_of_simple_of_simple` — a name in a directory of it
-/

namespace Tqos

namespace Paths

/-- The characters that have a meaning. -/
structure Marks (α : Type*) where
  slash : α
  dot : α

variable {α : Type*}

/-- A path below a directory. -/
def Below (dir p : List (List α)) : Prop := ∃ c cs, p = dir ++ c :: cs

theorem below_append (dir : List (List α)) (c : List α) : Below dir (dir ++ [c]) := ⟨c, [], rfl⟩

variable [DecidableEq α]

/-- A component of a name. -/
def step (k : Marks α) (p : List (List α)) (c : List α) : List (List α) :=
  if c = [] ∨ c = [k.dot] then p
  else if c = [k.dot, k.dot] then p.dropLast
  else p ++ [c]

/-- The path of a name. -/
def resolve (k : Marks α) (cwd : List (List α)) (name : List α) : List (List α) :=
  (name.splitOn k.slash).foldl (step k) (if name.head? = some k.slash then [] else cwd)

/-- A name of one component that is not a directory by itself. -/
structure Simple (k : Marks α) (name : List α) : Prop where
  ne_nil : name ≠ []
  slash_notMem : k.slash ∉ name
  ne_dot : name ≠ [k.dot]
  ne_dot_dot : name ≠ [k.dot, k.dot]

instance decidableSimple (k : Marks α) (name : List α) : Decidable (Simple k name) :=
  decidable_of_iff (name ≠ [] ∧ k.slash ∉ name ∧ name ≠ [k.dot] ∧ name ≠ [k.dot, k.dot])
    ⟨fun ⟨h₁, h₂, h₃, h₄⟩ => ⟨h₁, h₂, h₃, h₄⟩, fun h =>
      ⟨h.ne_nil, h.slash_notMem, h.ne_dot, h.ne_dot_dot⟩⟩

instance decidableBelow (dir p : List (List α)) : Decidable (Below dir p) :=
  decidable_of_iff (dir.isPrefixOf p = true ∧ dir.length < p.length) (by
    rw [List.isPrefixOf_iff_prefix]
    constructor
    · rintro ⟨⟨t, rfl⟩, hlt⟩
      cases t with
      | nil => simp at hlt
      | cons c cs => exact ⟨c, cs, rfl⟩
    · rintro ⟨c, cs, rfl⟩
      exact ⟨List.prefix_append _ _, by simp⟩)

variable {k : Marks α} {cwd : List (List α)} {name : List α}

theorem step_of_simple (h : Simple k name) (p : List (List α)) : step k p name = p ++ [name] := by
  rw [step, if_neg (not_or.mpr ⟨h.ne_nil, h.ne_dot⟩), if_neg h.ne_dot_dot]

/-- **A name of one component.** -/
theorem resolve_of_simple (h : Simple k name) : resolve k cwd name = cwd ++ [name] := by
  have hhead : name.head? ≠ some k.slash := by
    intro heq
    exact h.slash_notMem (List.mem_of_mem_head? heq)
  rw [resolve, List.splitOn_eq_singleton h.slash_notMem, if_neg hhead]
  exact step_of_simple h cwd

/-- A name in a directory. -/
theorem resolve_of_simple_of_simple {dir : List α} (hdir : Simple k dir) (h : Simple k name) :
    resolve k cwd (dir ++ k.slash :: name) = cwd ++ [dir, name] := by
  have hhead : (dir ++ k.slash :: name).head? ≠ some k.slash := by
    obtain ⟨c, cs, rfl⟩ := List.exists_cons_of_ne_nil hdir.ne_nil
    intro heq
    rw [List.cons_append, List.head?_cons, Option.some.injEq] at heq
    exact hdir.slash_notMem (List.mem_cons.mpr (Or.inl heq.symm))
  rw [resolve, List.splitOn_append_cons_self_of_not_mem hdir.slash_notMem,
    List.splitOn_eq_singleton h.slash_notMem, if_neg hhead]
  show step k (step k cwd dir) name = _
  rw [step_of_simple hdir, step_of_simple h, List.append_assoc]
  rfl

theorem below_resolve_of_simple (h : Simple k name) : Below cwd (resolve k cwd name) := by
  rw [resolve_of_simple h]
  exact below_append cwd name

end Paths

end Tqos
