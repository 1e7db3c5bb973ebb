import Mathlib.Data.List.Infix

/-!
# Runs of partial steps

A machine that takes events one after another is a partial step `σ → ε → Option σ`: the result is
`none` when the event is not possible in that state, and a run is the fold of the step over a list
of events. Nothing here knows what the states or the events are.

## What is said about a run

* `Visits step P s es` — every state the run passes through, the first one included, satisfies `P`.
* `Along step G s es` — every event of the run is taken in a state where `G` allows it.

The second is a condition on the *inputs* of a run and the first a property of its *outcome*.
`invariant` turns one step lemma into a statement about the end of a run, and
`visits_iff_along` is the sharp form: when a step that violates `G` always leaves `P` broken, the
runs that keep `P` are exactly the runs all of whose steps meet `G`.
-/

namespace Tqos

namespace Run

variable {σ ε : Type*} {step : σ → ε → Option σ} {P Inv : σ → Prop} {G : σ → ε → Prop}
  {s t u : σ} {e : ε} {es : List ε}

/-- The run of `es` from `s`: every event in turn, `none` as soon as one is not possible. -/
def run (step : σ → ε → Option σ) (s : σ) (es : List ε) : Option σ := es.foldlM step s

@[simp] theorem run_nil (s : σ) : run step s [] = some s := rfl

@[simp] theorem run_cons (s : σ) (e : ε) (es : List ε) :
    run step s (e :: es) = (step s e).bind fun u => run step u es := rfl

theorem run_append (s : σ) (es fs : List ε) :
    run step s (es ++ fs) = (run step s es).bind fun u => run step u fs :=
  List.foldlM_append

/-- A run that takes `e` last took everything else first. -/
theorem run_concat_eq_some :
    run step s (es ++ [e]) = some t ↔ ∃ u, run step s es = some u ∧ step u e = some t := by
  simp [run_append, Option.bind_eq_some_iff]

/-- A step that is always possible makes every run possible. -/
theorem run_total (f : σ → ε → σ) (s : σ) (es : List ε) :
    run (fun u e => some (f u e)) s es = some (es.foldl f s) := by
  induction es generalizing s with
  | nil => rfl
  | cons e es ih => exact ih (f s e)

/-- Every state the run of `es` from `s` passes through satisfies `P`. -/
def Visits (step : σ → ε → Option σ) (P : σ → Prop) (s : σ) (es : List ε) : Prop :=
  ∀ p, p <+: es → ∀ u, run step s p = some u → P u

/-- Every event of `es` is taken in a state where `G` allows it. -/
def Along (step : σ → ε → Option σ) (G : σ → ε → Prop) (s : σ) (es : List ε) : Prop :=
  ∀ p e, p ++ [e] <+: es → ∀ u, run step s p = some u → G u e

theorem along_nil (step : σ → ε → Option σ) (G : σ → ε → Prop) (s : σ) : Along step G s [] := by
  intro p e hp
  cases p with
  | nil => exact absurd (List.prefix_nil.mp hp) (List.cons_ne_nil _ _)
  | cons => exact absurd (List.prefix_nil.mp hp) (List.cons_ne_nil _ _)

/-- A condition along a run is a condition on its first event and along the rest. -/
theorem along_cons :
    Along step G s (e :: es) ↔ G s e ∧ ∀ u, step s e = some u → Along step G u es := by
  constructor
  · intro h
    refine ⟨h [] e ⟨es, rfl⟩ s rfl, fun u hu p f hp v hv => ?_⟩
    refine h (e :: p) f ((List.cons_prefix_cons).mpr ⟨rfl, hp⟩) v ?_
    rw [run_cons, hu]
    exact hv
  · rintro ⟨he, hes⟩ p f hp v hv
    cases p with
    | nil =>
      obtain ⟨rfl, -⟩ := List.cons_prefix_cons.mp hp
      exact Option.some.inj hv ▸ he
    | cons e' p =>
      obtain ⟨rfl, hp'⟩ := List.cons_prefix_cons.mp hp
      rw [run_cons, Option.bind_eq_some_iff] at hv
      obtain ⟨u, hu, hv⟩ := hv
      exact hes u hu p f hp' v hv

/-- A run visits its first state and what the rest of it visits. -/
theorem visits_cons :
    Visits step P s (e :: es) ↔ P s ∧ ∀ u, step s e = some u → Visits step P u es := by
  constructor
  · intro h
    refine ⟨h [] List.nil_prefix s rfl, fun u hu p hp v hv => ?_⟩
    refine h (e :: p) (List.cons_prefix_cons.mpr ⟨rfl, hp⟩) v ?_
    rw [run_cons, hu]
    exact hv
  · rintro ⟨hs, hes⟩ p hp v hv
    cases p with
    | nil => exact Option.some.inj hv ▸ hs
    | cons e' p =>
      obtain ⟨rfl, hp'⟩ := List.cons_prefix_cons.mp hp
      rw [run_cons, Option.bind_eq_some_iff] at hv
      obtain ⟨u, hu, hv⟩ := hv
      exact hes u hu p hp' v hv

/-- Whether a condition holds along a run can be found out by running it. -/
instance decidableAlong [∀ u e, Decidable (G u e)] : ∀ s es, Decidable (Along step G s es)
  | _, [] => isTrue fun p e hp => by simp at hp
  | s, e :: es =>
    match h : step s e with
    | none => decidable_of_iff (G s e) (by simp [along_cons, h])
    | some u =>
      have := decidableAlong u es
      decidable_of_iff (G s e ∧ Along step G u es) (by simp [along_cons, h])

/-- So can whether a run only visits states of some kind. -/
instance decidableVisits [∀ u, Decidable (P u)] : ∀ s es, Decidable (Visits step P s es)
  | s, [] => decidable_of_iff (P s) ⟨fun h p hp u hu => by
      obtain rfl := List.prefix_nil.mp hp
      exact Option.some.inj hu ▸ h, fun h => h [] List.prefix_rfl s rfl⟩
  | s, e :: es =>
    match h : step s e with
    | none => decidable_of_iff (P s) (by simp [visits_cons, h])
    | some u =>
      have := decidableVisits u es
      decidable_of_iff (P s ∧ Visits step P u es) (by simp [visits_cons, h])

/-- How many events of the run of `es` from `s` are counted by `c` in the state they meet. -/
def countAlong (step : σ → ε → Option σ) (c : σ → ε → Bool) : σ → List ε → ℕ
  | _, [] => 0
  | s, e :: es =>
    (if c s e then 1 else 0) + ((step s e).map fun u => countAlong step c u es).getD 0

theorem countAlong_cons (c : σ → ε → Bool) (h : step s e = some u) :
    countAlong step c s (e :: es) = (if c s e then 1 else 0) + countAlong step c u es := by
  rw [countAlong, h]
  rfl

/-- A run without an event that would be counted. -/
theorem countAlong_eq_zero {c : σ → ε → Bool} (h : ∀ e ∈ es, ∀ s, c s e = false) (s : σ) :
    countAlong step c s es = 0 := by
  induction es generalizing s with
  | nil => rfl
  | cons e es ih =>
    rw [List.forall_mem_cons] at h
    rw [countAlong, h.1 s]
    cases step s e with
    | none => rfl
    | some u => simp [ih h.2 u]

theorem Visits.of_prefix {fs : List ε} (h : Visits step P s fs) (hp : es <+: fs) :
    Visits step P s es :=
  fun p hp' => h p (hp'.trans hp)

theorem Along.of_prefix {fs : List ε} (h : Along step G s fs) (hp : es <+: fs) :
    Along step G s es :=
  fun p e hp' => h p e (hp'.trans hp)

theorem Visits.last (h : Visits step P s es) (ht : run step s es = some t) : P t :=
  h es List.prefix_rfl t ht

/-- The condition on the last event, read off a run that ends with it. -/
theorem Along.last (h : Along step G s (es ++ [e])) (ht : run step s es = some t) : G t e :=
  h es e List.prefix_rfl t ht

/-- **The invariant rule.** What holds at the start and is kept by every allowed step holds at the
end of every run whose steps are allowed. -/
theorem invariant (h₀ : Inv s) (hstep : ∀ u e v, Inv u → G u e → step u e = some v → Inv v)
    (hG : Along step G s es) (ht : run step s es = some t) : Inv t := by
  induction es using List.reverseRecOn generalizing t with
  | nil => exact Option.some.inj ht ▸ h₀
  | append_singleton es e ih =>
    obtain ⟨u, hu, hut⟩ := run_concat_eq_some.mp ht
    exact hstep u e t (ih (hG.of_prefix (List.prefix_append _ _)) hu) (hG.last hu) hut

/-- Every state of a run whose steps are allowed satisfies the invariant, not only the last. -/
theorem visits_of_along (h₀ : Inv s)
    (hstep : ∀ u e v, Inv u → G u e → step u e = some v → Inv v)
    (hG : Along step G s es) : Visits step Inv s es :=
  fun _ hp _ hu => invariant h₀ hstep (hG.of_prefix hp) hu

/-- Two conditions that agree wherever the invariant holds are met by the same runs. -/
theorem along_congr {H : σ → ε → Prop} (h₀ : Inv s)
    (hstep : ∀ u e v, Inv u → step u e = some v → Inv v)
    (hiff : ∀ u e, Inv u → (G u e ↔ H u e)) : Along step G s es ↔ Along step H s es := by
  have hinv : ∀ p u, run step s p = some u → Inv u := fun p u hu =>
    invariant h₀ (fun v e w hv (_ : True) => hstep v e w hv) (fun _ _ _ _ _ => trivial) hu
  constructor
  · intro h p e hp u hu
    exact (hiff u e (hinv p u hu)).mp (h p e hp u hu)
  · intro h p e hp u hu
    exact (hiff u e (hinv p u hu)).mpr (h p e hp u hu)

/-- **The sharp form.** `G` is exactly the condition under which a run keeps the invariant, once a
step that breaks `G` is known to leave a state where the invariant fails. -/
theorem visits_iff_along (h₀ : Inv s)
    (hstep : ∀ u e v, Inv u → G u e → step u e = some v → Inv v)
    (hbad : ∀ u e v, Inv u → ¬ G u e → step u e = some v → ¬ Inv v)
    (ht : run step s es = some t) : Visits step Inv s es ↔ Along step G s es := by
  refine ⟨fun hv p e hp u hu => ?_, visits_of_along h₀ hstep⟩
  by_contra hG
  obtain ⟨q, rfl⟩ := hp
  -- the run got past `e`, so the state right after it is one of those visited
  rw [run_append, Option.bind_eq_some_iff] at ht
  obtain ⟨v, hv', -⟩ := ht
  obtain ⟨w, hw, hwv⟩ := run_concat_eq_some.mp hv'
  obtain rfl : u = w := Option.some.inj (hu.symm.trans hw)
  have hInv : Inv u := hv p ((List.prefix_append p [e]).trans (List.prefix_append _ q)) u hu
  exact hbad u e v hInv hG hwv (hv (p ++ [e]) (List.prefix_append _ _) v hv')

/-! ## Notes

What an observer writes down along a run, beside the state and without any effect on it. -/

section Note

variable {γ : Type*} {upd : σ → ε → γ → γ} {g : γ}

/-- What has been noted at the end of a run, when `upd` says what each event adds in the state it
meets. -/
def note (step : σ → ε → Option σ) (upd : σ → ε → γ → γ) : σ → γ → List ε → γ
  | _, g, [] => g
  | s, g, e :: es =>
    match step s e with
    | none => g
    | some u => note step upd u (upd s e g) es

theorem note_concat (ht : run step s es = some t) (hu : step t e = some u) :
    note step upd s g (es ++ [e]) = upd t e (note step upd s g es) := by
  induction es generalizing s g with
  | nil =>
    obtain rfl := Option.some.inj ht
    simp only [List.nil_append, note, hu]
  | cons e' es ih =>
    rw [run_cons, Option.bind_eq_some_iff] at ht
    obtain ⟨v, hv, ht⟩ := ht
    simp only [List.cons_append, note, hv]
    exact ih ht

/-- What does not depend on the states is noted by a fold over the events. -/
theorem note_eq_foldl {f : γ → ε → γ} (ht : run step s es = some t) :
    note step (fun _ e g => f g e) s g es = es.foldl f g := by
  induction es generalizing s g with
  | nil => rfl
  | cons e es ih =>
    rw [run_cons, Option.bind_eq_some_iff] at ht
    obtain ⟨u, hu, ht⟩ := ht
    rw [note, hu, List.foldl_cons]
    exact ih ht

/-- **The invariant rule**, for a state and what was noted. -/
theorem invariant_note {Inv : σ → γ → Prop} (h₀ : Inv s g)
    (hstep : ∀ u g e v, Inv u g → G u e → step u e = some v → Inv v (upd u e g))
    (hG : Along step G s es) (ht : run step s es = some t) : Inv t (note step upd s g es) := by
  induction es using List.reverseRecOn generalizing t with
  | nil => exact Option.some.inj ht ▸ h₀
  | append_singleton es e ih =>
    obtain ⟨u, hu, hut⟩ := run_concat_eq_some.mp ht
    rw [note_concat hu hut]
    exact hstep u _ e t (ih (hG.of_prefix (List.prefix_append _ _)) hu) (hG.last hu) hut

end Note

/-! ## Machines that answer

A machine that is never stuck and answers every event; two of them that start related and answer
alike, step by step, cannot be told apart by any sequence of events. -/

section Exchange

variable {τ α : Type*} {f : σ → ε → α × σ} {g : τ → ε → α × τ} {R : σ → τ → Prop}

/-- The events of a run with their answers, and the state at the end. -/
def exchange (f : σ → ε → α × σ) : σ → List ε → List (ε × α) × σ
  | s, [] => ([], s)
  | s, e :: es => ((e, (f s e).1) :: (exchange f (f s e).2 es).1, (exchange f (f s e).2 es).2)

theorem exchange_concat (f : σ → ε → α × σ) (s : σ) (es : List ε) (e : ε) :
    exchange f s (es ++ [e]) =
      ((exchange f s es).1 ++ [(e, (f (exchange f s es).2 e).1)],
        (f (exchange f s es).2 e).2) := by
  induction es generalizing s with
  | nil => rfl
  | cons e' es ih => rw [List.cons_append, exchange, ih, exchange, List.cons_append]

/-- **Simulation.** Machines that answer alike in related states give the same run. -/
theorem exchange_simulates {s : σ} {t : τ}
    (hstep : ∀ s t e, R s t → (f s e).1 = (g t e).1 ∧ R (f s e).2 (g t e).2) (h : R s t)
    (es : List ε) :
    (exchange f s es).1 = (exchange g t es).1 ∧ R (exchange f s es).2 (exchange g t es).2 := by
  induction es generalizing s t with
  | nil => exact ⟨rfl, h⟩
  | cons e es ih =>
    obtain ⟨hanswer, hnext⟩ := hstep s t e h
    obtain ⟨hlog, hend⟩ := ih hnext
    rw [exchange, exchange, hanswer, hlog]
    exact ⟨rfl, hend⟩

end Exchange

end Run

end Tqos
