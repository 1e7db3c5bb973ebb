import Tqos.Lib.BinaryHeap
import Tqos.Lib.Except
import Tqos.Lib.Run

/-!
# The heap of the kernel module

`spp_heap_new`, `spp_heap_add` and `spp_heap_del`. The elements stand in the slots from 1 on, below
`pos`; the array is doubled when it is full. An index beyond the array and a slot that was never
written are faults, and so is a loop that does not end.

On the way down `spp_heap_del` compares both children although there may be only one. The slot of
the missing one holds the last element still, which is the one that looks for a place.

## Main results

* `addLoop_spec`, `delLoop_spec` — the way up and the way down, over the same steps of a binary heap
* `Kept.add`, `Kept.del` — one call
* `heap_runs` — no call faults, and the heap is ordered and holds what was added and not removed
-/

namespace Tqos

namespace Spp

/-- `SPP_HEAP_MAX`. -/
def sppHeapMax : ℕ := 8192

/-- What goes wrong. -/
inductive HeapFault
  | outOfBounds
  | uninitialised
  | endless
deriving DecidableEq, Repr

/-- `struct spp_heap`. A slot that was allocated and not written yet is `none`. -/
structure SppHeap (α : Type) where
  cmp : α → α → ℤ
  heap : List (Option α)
  size : ℕ
  pos : ℕ

/-- What `spp_heap_new` returns. -/
inductive NewHeap (α : Type)
  | null
  /-- The address of a heap that has been given back. -/
  | freed
  | made (h : SppHeap α)

variable {α : Type}

/-- `spp_heap_new`; the answers of `kmalloc` are arguments. -/
def sppHeapNew (size : ℕ) (cmp : Option (α → α → ℤ)) (kmalloc kmallocHeap : Bool) : NewHeap α :=
  match cmp with
  | none => .null
  | some cmp =>
    if size = 0 ∨ sppHeapMax < size then .null
    else if kmalloc = false then .null
    else if kmallocHeap = false then .freed
    else .made { cmp := cmp, heap := List.replicate size none, size := size, pos := 1 }

/-- Reading a slot. -/
def load (heap : List (Option α)) (i : ℕ) : Except HeapFault α :=
  match heap[i]? with
  | none => .error .outOfBounds
  | some none => .error .uninitialised
  | some (some a) => .ok a

/-- Writing a slot. -/
def store (heap : List (Option α)) (i : ℕ) (a : α) : Except HeapFault (List (Option α)) :=
  if i < heap.length then .ok (heap.set i (some a)) else .error .outOfBounds

/-- The loop of `spp_heap_add`: parents that are not smaller than `v` move down. -/
def addLoop (cmp : α → α → ℤ) (v : α) :
    ℕ → List (Option α) → ℕ → Except HeapFault (List (Option α) × ℕ)
  | 0, _, _ => .error .endless
  | fuel + 1, heap, pos =>
    if pos > 1 then do
      let parent := pos >>> 1
      let p ← load heap parent
      if cmp p v < 0 then .ok (heap, pos)
      else do
        let heap ← store heap pos p
        addLoop cmp v fuel heap parent
    else .ok (heap, pos)

/-- `spp_heap_add` once there is room. -/
def place (h : SppHeap α) (v : α) : Except HeapFault (Bool × SppHeap α) := do
  let (heap, pos) ← addLoop h.cmp v (h.pos + 1) h.heap h.pos
  let heap ← store heap pos v
  .ok (true, { h with heap := heap, pos := h.pos + 1 })

/-- `spp_heap_add`; the answer of `krealloc` is an argument. -/
def sppHeapAdd (h : SppHeap α) (v : α) (krealloc : Bool) : Except HeapFault (Bool × SppHeap α) :=
  if h.pos ≥ h.size then
    if h.size ≥ sppHeapMax then .ok (false, h)
    else
      let size := h.size <<< 1
      if krealloc = false then .ok (false, { h with size := size >>> 1 })
      else
        place { h with size := size, heap := h.heap ++ List.replicate (size - h.size) none } v
  else place h v

/-- The loop of `spp_heap_del`: children that are not greater than `last` move up. -/
def delLoop (cmp : α → α → ℤ) (last : α) (n : ℕ) :
    ℕ → List (Option α) → ℕ → Except HeapFault (List (Option α) × ℕ)
  | 0, _, _ => .error .endless
  | fuel + 1, heap, pos =>
    if pos <<< 1 < n then do
      let left := pos <<< 1
      let right := left + 1
      let l ← load heap left
      let r ← load heap right
      let min := if cmp l r < 0 then left else right
      let m ← load heap min
      if cmp last m < 0 then .ok (heap, pos)
      else do
        let heap ← store heap pos m
        delLoop cmp last n fuel heap min
    else .ok (heap, pos)

/-- `spp_heap_del`. -/
def sppHeapDel (h : SppHeap α) : Except HeapFault (α × SppHeap α) := do
  let res ← load h.heap 1
  let n := h.pos - 1
  let last ← load h.heap n
  let (heap, pos) ← delLoop h.cmp last n h.pos h.heap 1
  let heap ← store heap pos last
  .ok (res, { h with heap := heap, pos := n })

/-! ## What is asked -/

/-- A comparison by which the elements are a total preorder: `x` comes before `y` if the comparison
is negative, and is at most `y` if `y` does not come before it. -/
structure TotalCmp (cmp : α → α → ℤ) : Prop where
  asymm : ∀ x y, cmp x y < 0 → ¬ cmp y x < 0
  trans : ∀ x y z, ¬ cmp y x < 0 → ¬ cmp z y < 0 → ¬ cmp z x < 0

/-- The elements of a heap. -/
def SppHeap.stored (h : SppHeap α) : Multiset α :=
  ((List.range' 1 (h.pos - 1)).filterMap fun i => h.heap[i]?.join : List α)

/-- A call. -/
inductive HeapCall (α : Type)
  | add (v : α) (krealloc : Bool)
  | del

/-- A heap, with what was added to it and removed from it. -/
structure HeapLog (α : Type) where
  h : SppHeap α
  added : Multiset α
  removed : Multiset α

/-- One call after another; elements are taken from heaps that are not empty. -/
def heapStep (s : HeapLog α) : HeapCall α → Option (HeapLog α)
  | .add v krealloc =>
    match sppHeapAdd s.h v krealloc with
    | .ok (true, h) => some { s with h := h, added := v ::ₘ s.added }
    | .ok (false, h) => some { s with h := h }
    | .error _ => none
  | .del =>
    if s.h.pos = 1 then none
    else
      match sppHeapDel s.h with
      | .ok (res, h) => some { s with h := h, removed := res ::ₘ s.removed }
      | .error _ => none

/-- What holds of a heap in between. -/
structure Kept (cmp : α → α → ℤ) (h : SppHeap α) : Prop where
  cmp_eq : h.cmp = cmp
  one_le_pos : 1 ≤ h.pos
  pos_le : h.pos ≤ h.size
  /-- The array has `size` slots. -/
  length : h.heap.length = h.size
  /-- The slots below `pos` are written. -/
  written : ∀ i, 1 ≤ i → i < h.pos → ∃ a, h.heap[i]? = some (some a)
  /-- No element is smaller than its parent. -/
  ordered : ∀ i, 2 ≤ i → i < h.pos → ∀ p a, h.heap[i / 2]? = some (some p) →
    h.heap[i]? = some (some a) → ¬ cmp a p < 0

/-- What an addition does: it puts the element in, or there is no room to be had and nothing
changes. -/
def Adds (h : SppHeap α) (v : α) (krealloc : Bool) : Prop :=
  (∃ h', sppHeapAdd h v krealloc = .ok (true, h') ∧ h'.stored = v ::ₘ h.stored) ∨
    h.pos = h.size ∧ (sppHeapMax ≤ h.size ∨ krealloc = false) ∧
      sppHeapAdd h v krealloc = .ok (false, h)

/-- What a removal does: it takes a minimal element out. -/
def Removes (cmp : α → α → ℤ) (h : SppHeap α) : Prop :=
  ∃ res h', sppHeapDel h = .ok (res, h') ∧ h.stored = res ::ₘ h'.stored ∧
    ∀ a ∈ h.stored, ¬ cmp a res < 0

/-- What is asked of a heap in use. -/
structure HeapGood (cmp : α → α → ℤ) (s : HeapLog α) : Prop where
  kept : Kept cmp s.h
  balance : s.h.stored + s.removed = s.added
  adds : ∀ v krealloc, Adds s.h v krealloc
  removes : s.h.pos ≠ 1 → Removes cmp s.h

/-! ## Slots and positions -/

/-- The slots below `n` hold the elements `b`, but for the slot `hole`. -/
def Holds (heap : List (Option α)) (n : ℕ) (b : ℕ → α) (hole : ℕ) : Prop :=
  ∀ i, 1 ≤ i → i < n → i ≠ hole → heap[i]? = some (some (b i))

/-- `x` is at most `y`. -/
def AtMost (cmp : α → α → ℤ) (x y : α) : Prop := ¬ cmp y x < 0

section Slots

variable {heap : List (Option α)} {b : ℕ → α} {n hole i j : ℕ} {a v : α}

theorem load_eq_ok : load heap i = .ok a ↔ heap[i]? = some (some a) := by
  rw [load]
  split <;> simp_all

theorem store_of_lt (h : i < heap.length) (a : α) : store heap i a = .ok (heap.set i (some a)) :=
  if_pos h

theorem Holds.load (h : Holds heap n b hole) (h1 : 1 ≤ i) (hn : i < n) (hne : i ≠ hole) :
    load heap i = .ok (b i) :=
  load_eq_ok.mpr (h i h1 hn hne)

/-- The element in hand is put into the hole. -/
theorem Holds.fill (h : Holds heap n b hole) (hlen : hole < heap.length) :
    Holds (heap.set hole (some (b hole))) n b 0 := by
  intro i h1 hn _
  by_cases hi : i = hole
  · rw [hi, List.getElem?_set_self hlen]
  · rw [List.getElem?_set_ne (Ne.symm hi)]
    exact h i h1 hn hi

/-- An element moves into the hole, and leaves one. -/
theorem Holds.move (h : Holds heap n b hole) (hlen : hole < heap.length) :
    Holds (heap.set hole (some (b j))) n (BinaryHeap.swap b hole j) j := by
  intro i h1 hn hij
  by_cases hi : i = hole
  · rw [hi, List.getElem?_set_self hlen, BinaryHeap.swap_left]
  · rw [List.getElem?_set_ne (Ne.symm hi), BinaryHeap.swap_of_ne hi hij]
    exact h i h1 hn hi

/-- The elements of the slots are those of the positions. -/
theorem Holds.stored {h : SppHeap α} (hb : Holds h.heap h.pos b 0) :
    h.stored = BinaryHeap.live b h.pos := by
  have hslots : (List.range' 1 (h.pos - 1)).filterMap (fun i => h.heap[i]?.join) =
      (List.range' 1 (h.pos - 1)).map b := by
    rw [← List.filterMap_eq_map]
    refine List.filterMap_congr fun i hi => ?_
    obtain ⟨h1, hn⟩ := List.mem_range'_1.mp hi
    rw [hb i h1 (by omega) (by omega)]
    rfl
  rw [SppHeap.stored, hslots]
  rfl

end Slots

/-! ## The loops -/

section Loops

variable {cmp : α → α → ℤ} {heap : List (Option α)} {b : ℕ → α} {n hole j fuel : ℕ} {v : α}

theorem TotalCmp.isTrans (h : TotalCmp cmp) : IsTrans α (AtMost cmp) := ⟨h.trans⟩

theorem TotalCmp.irrefl (h : TotalCmp cmp) (x : α) : AtMost cmp x x := fun hlt =>
  h.asymm x x hlt hlt

/-- How a loop ends: in a hole in which the element `v` is in order. -/
def Settles (cmp : α → α → ℤ) (b : ℕ → α) (n length : ℕ) (v : α)
    (r : Except HeapFault (List (Option α) × ℕ)) : Prop :=
  ∃ heap p b', r = .ok (heap, p) ∧ p < length ∧ heap.length = length ∧
    Holds (heap.set p (some v)) n b' 0 ∧ BinaryHeap.Ordered (AtMost cmp) b' n ∧
      BinaryHeap.live b' n = BinaryHeap.live b n

/-- The hole it is in is the place of `v`. -/
theorem Holds.settles (hb : Holds heap n b hole) (hv : b hole = v) (hlen : hole < heap.length)
    (hord : BinaryHeap.Ordered (AtMost cmp) b n) :
    Settles cmp b n heap.length v (.ok (heap, hole)) :=
  ⟨heap, hole, b, rfl, hlen, rfl, hv ▸ hb.fill hlen, hord, rfl⟩

/-- A turn of the way up. -/
theorem addLoop_succ {p : α} (hroot : hole > 1) (hload : load heap (hole / 2) = .ok p)
    (hlen : hole < heap.length) :
    addLoop cmp v (fuel + 1) heap hole =
      if cmp p v < 0 then .ok (heap, hole)
      else addLoop cmp v fuel (heap.set hole (some p)) (hole / 2) := by
  rw [addLoop, if_pos hroot, Nat.shiftRight_one]
  show (load heap (hole / 2) >>= fun p => if cmp p v < 0 then Except.ok (heap, hole) else
    store heap hole p >>= fun heap => addLoop cmp v fuel heap (hole / 2)) = _
  rw [hload, ok_bind, store_of_lt hlen, ok_bind]

/-- **The way up** ends. -/
theorem addLoop_spec (hcmp : TotalCmp cmp) (hb : Holds heap n b hole) (hv : b hole = v)
    (hup : BinaryHeap.UpOrder (AtMost cmp) b n hole) (h1 : 1 ≤ hole) (hn : hole < n)
    (hlen : n ≤ heap.length) (hfuel : hole < fuel) :
    Settles cmp b n heap.length v (addLoop cmp v fuel heap hole) := by
  have := hcmp.isTrans
  induction fuel generalizing heap b hole with
  | zero => omega
  | succ fuel ih =>
    by_cases hroot : hole > 1
    · have hload := hb.load (i := hole / 2) (by omega) (by omega) (by omega)
      rw [addLoop_succ hroot hload (by omega)]
      by_cases hlt : cmp (b (hole / 2)) v < 0
      · rw [if_pos hlt]
        refine hb.settles hv (by omega) (hup.ordered fun _ => ?_)
        rw [hv]
        exact hcmp.asymm _ _ hlt
      · rw [if_neg hlt]
        have hle : AtMost cmp (b hole) (b (hole / 2)) := by
          rw [hv]
          exact hlt
        have hlive : BinaryHeap.live (BinaryHeap.swap b hole (hole / 2)) n =
            BinaryHeap.live b n := BinaryHeap.live_swap h1 hn (by omega) (by omega)
        have hrest := ih (hb.move (j := hole / 2) (by omega))
          ((BinaryHeap.swap_right b _ _).trans hv) (hup.swap hroot hn hle) (by omega) (by omega)
          (by rwa [List.length_set]) (by omega)
        rw [List.length_set] at hrest
        rw [Settles, ← hlive]
        exact hrest
    · rw [addLoop, if_neg hroot]
      exact hb.settles hv (by omega) (hup.ordered fun h2 => absurd h2 (by omega))

/-- A turn of the way down: both children are read, although there may be only one. -/
theorem delLoop_succ (hchild : 2 * hole < n) (hl : load heap (2 * hole) = .ok (b (2 * hole)))
    (hr : load heap (2 * hole + 1) = .ok (b (2 * hole + 1))) (hlen : hole < heap.length)
    (hj : (if cmp (b (2 * hole)) (b (2 * hole + 1)) < 0 then 2 * hole else 2 * hole + 1) = j) :
    delLoop cmp v n (fuel + 1) heap hole =
      if cmp v (b j) < 0 then .ok (heap, hole)
      else delLoop cmp v n fuel (heap.set hole (some (b j))) j := by
  have hshift : hole <<< 1 = 2 * hole := by
    rw [Nat.shiftLeft_eq]
    omega
  have hload : load heap j = .ok (b j) := by
    rw [← hj]
    split
    · exact hl
    · exact hr
  rw [delLoop, hshift, if_pos hchild]
  show (load heap (2 * hole) >>= fun l => load heap (2 * hole + 1) >>= fun r =>
    load heap (if cmp l r < 0 then 2 * hole else 2 * hole + 1) >>= fun m =>
      if cmp v m < 0 then Except.ok (heap, hole) else
        store heap hole m >>= fun heap =>
          delLoop cmp v n fuel heap (if cmp l r < 0 then 2 * hole else 2 * hole + 1)) = _
  rw [hl, ok_bind, hr, ok_bind, hj, hload, ok_bind, store_of_lt hlen, ok_bind]

/-- The child that is chosen is the smallest of the children there are. -/
theorem TotalCmp.smallest (hcmp : TotalCmp cmp) (b : ℕ → α)
    (hj : (if cmp (b (2 * hole)) (b (2 * hole + 1)) < 0 then 2 * hole else 2 * hole + 1) = j) :
    ∀ c, c / 2 = hole → AtMost cmp (b j) (b c) := by
  intro c hc
  have hchildren : c = 2 * hole ∨ c = 2 * hole + 1 := by omega
  by_cases hlt : cmp (b (2 * hole)) (b (2 * hole + 1)) < 0
  · rw [if_pos hlt] at hj
    rw [← hj]
    rcases hchildren with rfl | rfl
    · exact hcmp.irrefl _
    · exact hcmp.asymm _ _ hlt
  · rw [if_neg hlt] at hj
    rw [← hj]
    rcases hchildren with rfl | rfl
    · exact hlt
    · exact hcmp.irrefl _

/-- **A step down**. Where the slot past the end is chosen, it is the element in hand that moves,
and everything else is in order already. -/
theorem Holds.move_down (hb : Holds heap (n + 1) b hole) (hv : b hole = v)
    (hend : b n = v) (hdown : BinaryHeap.DownOrder (AtMost cmp) b n hole) (h1 : 1 ≤ hole)
    (hj : j / 2 = hole) (hjn : j ≤ n) (hlen : n < heap.length)
    (hmin : ∀ c, c / 2 = hole → AtMost cmp (b j) (b c)) (hle : AtMost cmp (b j) v) :
    ∃ b', Holds (heap.set hole (some (b j))) (n + 1) b' j ∧ b' j = v ∧ b' n = v ∧
      BinaryHeap.DownOrder (AtMost cmp) b' n j ∧
        BinaryHeap.live b' n = BinaryHeap.live b n := by
  have hmoved : Holds (heap.set hole (some (b j))) (n + 1) (BinaryHeap.swap b hole j) j :=
    hb.move (by omega)
  have hhand : BinaryHeap.swap b hole j j = v := (BinaryHeap.swap_right b _ _).trans hv
  refine ⟨BinaryHeap.swap b hole j, hmoved, hhand, ?_⟩
  rcases hjn.eq_or_lt with rfl | hjn
  · have heq : b hole = b j := by rw [hend, hv]
    have hord := hdown.ordered fun c _ hc => heq ▸ hmin c hc
    rw [BinaryHeap.swap_of_eq heq]
    exact ⟨hend, hord.downOrder_end, rfl⟩
  · refine ⟨?_, hdown.swap hj hjn (fun c _ hc => hmin c hc) (hv ▸ hle),
      BinaryHeap.live_swap h1 (by omega) (by omega) hjn⟩
    rw [BinaryHeap.swap_of_ne (by omega) hjn.ne', hend]

/-- **The way down** ends. The slot `n` is past the end and holds the element in hand too, so that a
hole with one child has two. -/
theorem delLoop_spec (hcmp : TotalCmp cmp) (hb : Holds heap (n + 1) b hole) (hv : b hole = v)
    (hend : b n = v) (hdown : BinaryHeap.DownOrder (AtMost cmp) b n hole) (h1 : 1 ≤ hole)
    (hn : hole ≤ n) (hlen : n < heap.length) (hfuel : n < hole + fuel) :
    Settles cmp b n heap.length v (delLoop cmp v n fuel heap hole) := by
  induction fuel generalizing heap b hole with
  | zero => omega
  | succ fuel ih =>
    have hbelow : Holds heap n b hole := fun i h1 hi hne => hb i h1 (by omega) hne
    by_cases hchild : 2 * hole < n
    · have hl := hb.load (i := 2 * hole) (by omega) (by omega) (by omega)
      have hr := hb.load (i := 2 * hole + 1) (by omega) (by omega) (by omega)
      obtain ⟨j, hj⟩ : ∃ j, (if cmp (b (2 * hole)) (b (2 * hole + 1)) < 0 then 2 * hole
        else 2 * hole + 1) = j := ⟨_, rfl⟩
      have hmin := hcmp.smallest b hj
      rw [delLoop_succ hchild hl hr (by omega) hj]
      have hparent : j / 2 = hole := by
        rw [← hj]
        split <;> omega
      by_cases hlt : cmp v (b j) < 0
      · rw [if_pos hlt]
        refine hbelow.settles hv (by omega) (hdown.ordered fun c _ hc => ?_)
        rw [hv]
        exact hcmp.trans _ _ _ (hcmp.asymm _ _ hlt) (hmin c hc)
      · obtain ⟨b', hb', hv', hend', hdown', hlive⟩ :=
          hb.move_down hv hend hdown h1 hparent (by omega) hlen hmin hlt
        have hrest := ih hb' hv' hend' hdown' (by omega) (by omega)
          (by rwa [List.length_set]) (by omega)
        rw [List.length_set] at hrest
        rw [if_neg hlt, Settles, ← hlive]
        exact hrest
    · have hshift : ¬ hole <<< 1 < n := by
        rw [Nat.shiftLeft_eq]
        omega
      rw [delLoop, if_neg hshift]
      exact hbelow.settles hv (by omega) (hdown.ordered fun c _ _ => by omega)

end Loops

/-! ## The calls -/

section Calls

variable {cmp : α → α → ℤ} {h : SppHeap α} {b : ℕ → α} {v : α}

/-- What the slots hold; `d` stands for what was never written. -/
def slots (heap : List (Option α)) (d : α) (i : ℕ) : α := heap[i]?.join.getD d

theorem slots_eq {heap : List (Option α)} {d a : α} {i : ℕ} (hi : heap[i]? = some (some a)) :
    slots heap d i = a := by
  rw [slots, hi]
  rfl

theorem Kept.holds (hk : Kept cmp h) (d : α) : Holds h.heap h.pos (slots h.heap d) 0 := by
  intro i h1 hn _
  obtain ⟨a, ha⟩ := hk.written i h1 hn
  rw [ha, slots_eq ha]

theorem Kept.slots_ordered (hk : Kept cmp h) (d : α) :
    BinaryHeap.Ordered (AtMost cmp) (slots h.heap d) h.pos := by
  intro i h2 hn
  have hb := hk.holds d
  exact hk.ordered i h2 hn _ _ (hb _ (by omega) (by omega) (by omega))
    (hb _ (by omega) hn (by omega))

/-- Slots in order are a heap. -/
theorem Holds.kept (hb : Holds h.heap h.pos b 0) (hord : BinaryHeap.Ordered (AtMost cmp) b h.pos)
    (hc : h.cmp = cmp) (h1 : 1 ≤ h.pos) (hpos : h.pos ≤ h.size) (hlen : h.heap.length = h.size) :
    Kept cmp h where
  cmp_eq := hc
  one_le_pos := h1
  pos_le := hpos
  length := hlen
  written := fun i hi hn => ⟨b i, hb i hi hn (by omega)⟩
  ordered := by
    intro i h2 hn p a hp ha
    rw [hb _ (by omega) (by omega) (by omega)] at hp
    rw [hb _ (by omega) hn (by omega)] at ha
    cases hp
    cases ha
    exact hord i h2 hn

theorem kept_new (cmp : α → α → ℤ) {size : ℕ} (h1 : 1 ≤ size) :
    Kept cmp { cmp := cmp, heap := List.replicate size none, size := size, pos := 1 } where
  cmp_eq := rfl
  one_le_pos := le_rfl
  pos_le := h1
  length := List.length_replicate
  written := fun i hi (hn : i < 1) => by omega
  ordered := fun i h2 (hn : i < 1) => by omega

/-- The array is made longer. -/
theorem Kept.grow (hk : Kept cmp h) {size : ℕ} (hsize : h.size ≤ size) :
    Kept cmp { h with
      size := size, heap := h.heap ++ List.replicate (size - h.size) none } := by
  have hold : ∀ i, i < h.pos →
      (h.heap ++ List.replicate (size - h.size) none)[i]? = h.heap[i]? := fun i hi =>
    List.getElem?_append_left (by have := hk.pos_le; have := hk.length; omega)
  refine ⟨hk.cmp_eq, hk.one_le_pos, hk.pos_le.trans hsize, ?_, fun i h1 hn => ?_,
    fun i h2 hn p a hp ha => ?_⟩
  · rw [List.length_append, List.length_replicate, hk.length]
    exact Nat.add_sub_of_le hsize
  · obtain ⟨a, ha⟩ := hk.written i h1 hn
    exact ⟨a, (hold i hn).trans ha⟩
  · have hn' : i < h.pos := hn
    exact hk.ordered i h2 hn p a ((hold _ (by omega)).symm.trans hp) ((hold _ hn).symm.trans ha)

/-- Making the array longer leaves the elements. -/
theorem Kept.stored_grow (hk : Kept cmp h) (size : ℕ) (more : List (Option α)) :
    SppHeap.stored { h with size := size, heap := h.heap ++ more } = h.stored := by
  have hslots : (List.range' 1 (h.pos - 1)).filterMap (fun i => (h.heap ++ more)[i]?.join) =
      (List.range' 1 (h.pos - 1)).filterMap fun i => h.heap[i]?.join := by
    refine List.filterMap_congr fun i hi => ?_
    obtain ⟨h1, hn⟩ := List.mem_range'_1.mp hi
    have hpos := hk.pos_le
    rw [List.getElem?_append_left (by rw [hk.length]; omega)]
  rw [SppHeap.stored, SppHeap.stored, hslots]

/-- **An element more**, when there is room. -/
theorem Kept.place (hcmp : TotalCmp cmp) (hk : Kept cmp h) (hroom : h.pos < h.size) (v : α) :
    ∃ h', place h v = .ok (true, h') ∧ Kept cmp h' ∧ h'.stored = v ::ₘ h.stored := by
  have hb := hk.holds v
  have hlen := hk.length
  have hlast : Holds h.heap (h.pos + 1) (Function.update (slots h.heap v) h.pos v) h.pos := by
    intro i h1 hn hne
    rw [Function.update_of_ne hne]
    exact hb i h1 (by omega) (by omega)
  obtain ⟨heap, p, b', hloop, hp, hlen', hb', hord, hlive⟩ := addLoop_spec hcmp hlast
    (Function.update_self _ _ _) ((hk.slots_ordered v).upOrder v) hk.one_le_pos (Nat.lt_add_one _)
    (by omega) (Nat.lt_add_one _)
  refine ⟨{ h with heap := heap.set p (some v), pos := h.pos + 1 }, ?_, ?_, ?_⟩
  · show (addLoop h.cmp v (h.pos + 1) h.heap h.pos >>= fun r =>
      store r.1 r.2 v >>= fun heap =>
        Except.ok (true, { h with heap := heap, pos := h.pos + 1 })) = _
    have hstore : store heap p v = .ok (heap.set p (some v)) := store_of_lt (by omega) v
    rw [hk.cmp_eq, hloop, ok_bind, hstore, ok_bind]
  · exact hb'.kept hord hk.cmp_eq (Nat.le_add_left 1 h.pos) hroom
      (List.length_set.trans (hlen'.trans hlen))
  · rw [hb'.stored, hlive, BinaryHeap.live_update _ _ hk.one_le_pos, hb.stored]

/-- **`spp_heap_add`** puts the element in, unless there is no room to be had. -/
theorem Kept.add (hcmp : TotalCmp cmp) (hk : Kept cmp h) (v : α) (krealloc : Bool) :
    (∃ h', sppHeapAdd h v krealloc = .ok (true, h') ∧ Kept cmp h' ∧ h'.stored = v ::ₘ h.stored) ∨
      h.pos = h.size ∧ (sppHeapMax ≤ h.size ∨ krealloc = false) ∧
        sppHeapAdd h v krealloc = .ok (false, h) := by
  have hpos := hk.pos_le
  have h1 := hk.one_le_pos
  rw [sppHeapAdd]
  by_cases hfull : h.pos ≥ h.size
  · rw [if_pos hfull]
    by_cases hmax : h.size ≥ sppHeapMax
    · rw [if_pos hmax]
      exact .inr ⟨by omega, .inl hmax, rfl⟩
    · rw [if_neg hmax]
      have hdouble : h.size <<< 1 = 2 * h.size := by
        rw [Nat.shiftLeft_eq]
        omega
      cases krealloc with
      | false =>
        have hback : h.size <<< 1 >>> 1 = h.size := by
          rw [hdouble, Nat.shiftRight_one]
          omega
        refine .inr ⟨by omega, .inr rfl, ?_⟩
        show Except.ok (false, { h with size := h.size <<< 1 >>> 1 }) = _
        rw [hback]
      | true =>
        obtain ⟨h', hplace, hk', hstored⟩ := (hk.grow (show h.size ≤ 2 * h.size by omega)).place
          hcmp (show h.pos < 2 * h.size by omega) v
        refine .inl ⟨h', ?_, hk', hstored.trans (congrArg _ (hk.stored_grow _ _))⟩
        rw [← hdouble] at hplace
        exact hplace
  · rw [if_neg hfull]
    exact .inl (hk.place hcmp (by omega) v)

/-- **`spp_heap_del`** takes a minimal element out. -/
theorem Kept.del (hcmp : TotalCmp cmp) (hk : Kept cmp h) (hne : h.pos ≠ 1) :
    ∃ res h', sppHeapDel h = .ok (res, h') ∧ Kept cmp h' ∧ h.stored = res ::ₘ h'.stored ∧
      ∀ a ∈ h.stored, ¬ cmp a res < 0 := by
  have := hcmp.isTrans
  have hlen := hk.length
  have hpos := hk.pos_le
  have h1 := hk.one_le_pos
  obtain ⟨res, hres⟩ := hk.written 1 le_rfl (by omega)
  have hb := hk.holds res
  have hord := hk.slots_ordered res
  obtain ⟨n, hn⟩ : ∃ n, h.pos = n + 1 := ⟨h.pos - 1, by omega⟩
  have hsub : h.pos - 1 = n := by omega
  have hstored := hb.stored
  rw [hn] at hb hord hstored
  set b := slots h.heap res with hbdef
  have hfirst : b 1 = res := slots_eq hres
  have hhole : Holds h.heap (n + 1) (Function.update b 1 (b n)) 1 := by
    intro i hi hin hne
    rw [Function.update_of_ne hne]
    exact hb i hi hin (by omega)
  have hend : Function.update b 1 (b n) n = b n := by
    by_cases hone : n = 1
    · rw [hone, Function.update_self]
    · rw [Function.update_of_ne hone]
  have hdone : Settles cmp (Function.update b 1 (b n)) n h.heap.length (b n)
      (delLoop cmp (b n) n (n + 1) h.heap 1) :=
    delLoop_spec hcmp hhole (Function.update_self _ _ _) hend (hord.downOrder (b n)) le_rfl
      (by omega) (by omega) (by omega)
  obtain ⟨heap, p, b', hloop, hp, hlen', hb', hord', hlive⟩ := hdone
  refine ⟨res, { h with heap := heap.set p (some (b n)), pos := n }, ?_, ?_, ?_, fun a ha => ?_⟩
  · show (load h.heap 1 >>= fun res => load h.heap (h.pos - 1) >>= fun last =>
      delLoop h.cmp last (h.pos - 1) h.pos h.heap 1 >>= fun r =>
        store r.1 r.2 last >>= fun heap =>
          Except.ok (res, { h with heap := heap, pos := h.pos - 1 })) = _
    have hload := hb.load (i := 1) le_rfl (by omega) (by omega)
    have hlast := hb.load (i := n) (by omega) (by omega) (by omega)
    have hstore : store heap p (b n) = .ok (heap.set p (some (b n))) :=
      store_of_lt (by omega) (b n)
    rw [hsub, hn, hload, ok_bind, hlast, ok_bind, hk.cmp_eq, hloop, ok_bind, hstore, ok_bind,
      hfirst]
  · exact hb'.kept hord' hk.cmp_eq (show 1 ≤ n by omega) (show n ≤ h.size by omega)
      (List.length_set.trans (hlen'.trans hlen))
  · rw [hstored, hb'.stored, hlive, ← hfirst]
    exact (BinaryHeap.live_remove b (by omega)).symm
  · rw [hstored] at ha
    obtain ⟨i, hi, hin, rfl⟩ := BinaryHeap.mem_live.mp ha
    have : Std.Refl (AtMost cmp) := ⟨hcmp.irrefl⟩
    exact hfirst ▸ hord.first_le hi hin

end Calls

/-! ## Runs -/

section Runs

variable {cmp : α → α → ℤ} {s s' : HeapLog α} {c : HeapCall α}

/-- A heap is kept, and holds what was added and not removed. -/
def Balanced (cmp : α → α → ℤ) (s : HeapLog α) : Prop :=
  Kept cmp s.h ∧ s.h.stored + s.removed = s.added

theorem Balanced.step (hcmp : TotalCmp cmp) (hs : Balanced cmp s)
    (hstep : heapStep s c = some s') : Balanced cmp s' := by
  obtain ⟨hk, hbalance⟩ := hs
  cases c with
  | add v krealloc =>
    rw [heapStep] at hstep
    rcases hk.add hcmp v krealloc with ⟨h', hadd, hk', hstored⟩ | ⟨-, -, hadd⟩
    · rw [hadd] at hstep
      obtain rfl := Option.some.inj hstep
      refine ⟨hk', ?_⟩
      show h'.stored + s.removed = v ::ₘ s.added
      rw [hstored, Multiset.cons_add, hbalance]
    · rw [hadd] at hstep
      obtain rfl := Option.some.inj hstep
      exact ⟨hk, hbalance⟩
  | del =>
    rw [heapStep] at hstep
    by_cases hne : s.h.pos = 1
    · rw [if_pos hne] at hstep
      exact absurd hstep (by simp)
    · obtain ⟨res, h', hdel, hk', hstored, -⟩ := hk.del hcmp hne
      rw [if_neg hne, hdel] at hstep
      obtain rfl := Option.some.inj hstep
      refine ⟨hk', ?_⟩
      show h'.stored + res ::ₘ s.removed = s.added
      rw [Multiset.add_cons, ← Multiset.cons_add, ← hstored, hbalance]

/-- **A heap in use.** From `spp_heap_new` on, whatever is added and removed and whenever there is
no memory: the heap is kept, and every call from there on does what it should, without a fault. -/
theorem heap_runs {cmp : α → α → ℤ} (hcmp : TotalCmp cmp) {size : ℕ} (h1 : 1 ≤ size)
    (hmax : size ≤ sppHeapMax) :
    ∃ h₀, sppHeapNew size (some cmp) true true = .made h₀ ∧
      ∀ (cs : List (HeapCall α)) (s : HeapLog α),
        Run.run heapStep ⟨h₀, 0, 0⟩ cs = some s → HeapGood cmp s := by
  refine ⟨{ cmp := cmp, heap := List.replicate size none, size := size, pos := 1 }, ?_,
    fun cs s hrun => ?_⟩
  · have hnone : ¬ (size = 0 ∨ sppHeapMax < size) := by omega
    rw [sppHeapNew, if_neg hnone]
    rfl
  · have hnew : Balanced cmp
        ⟨{ cmp := cmp, heap := List.replicate size none, size := size, pos := 1 }, 0, 0⟩ :=
      ⟨kept_new cmp h1, rfl⟩
    obtain ⟨hk, hbalance⟩ := Run.invariant hnew
      (fun _ _ _ hs (_ : True) hstep => hs.step hcmp hstep) (fun _ _ _ _ _ => trivial) hrun
    refine ⟨hk, hbalance, fun v krealloc => ?_, fun hne => ?_⟩
    · rcases hk.add hcmp v krealloc with ⟨h', hadd, -, hstored⟩ | hfull
      · exact .inl ⟨h', hadd, hstored⟩
      · exact .inr hfull
    · obtain ⟨res, h', hdel, -, hstored, hmin⟩ := hk.del hcmp hne
      exact ⟨res, h', hdel, hstored, hmin⟩

/-- Numbers by their size. -/
def numberCmp (x y : ℤ) : ℤ := x - y

theorem totalCmp_numberCmp : TotalCmp numberCmp :=
  ⟨fun x y => by simp only [numberCmp]; omega, fun x y z => by simp only [numberCmp]; omega⟩

/-- Room for no element at first; the second number does not get in when it is first tried. -/
def numberCalls : List (HeapCall ℤ) := [.add 3 true, .add 1 false, .add 1 true, .del]

theorem heap_runs_numbers : ∃ h₀ s, sppHeapNew 1 (some numberCmp) true true = .made h₀ ∧
    Run.run heapStep ⟨h₀, 0, 0⟩ numberCalls = some s ∧ s.removed = {1} ∧ HeapGood numberCmp s := by
  obtain ⟨h₀, hnew, hruns⟩ := heap_runs totalCmp_numberCmp le_rfl (by decide : 1 ≤ sppHeapMax)
  cases hnew
  exact ⟨_, _, rfl, rfl, rfl, hruns numberCalls _ rfl⟩

end Runs

end Spp

end Tqos
