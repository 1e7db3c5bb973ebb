import Tqos.Tserver.QosCache

/-!
# The limit list and its buffer

`acquire_ip_qos_list` for a buffer of any size. The loop stops when the room is used up exactly. An
entry that does not fit moves the pointer behind the buffer, and from there on `snprintf` has room
without a limit. At the end the character in front of the pointer is overwritten, wherever that is.

## Main results

* `listSafe_iff` — the lease files with which it stays inside of the buffer
* `acquireIpQosList_list` — the list, and what comparing and copying it does
-/

namespace Tqos

/-! ## Where it writes -/

section Writes

variable {q : TqQosCtl} {ls : List DhcpLease} {l : DhcpLease} {buf : List Char} {n : ℕ}

/-- The pointer and the room move together. -/
theorem acquireLoop_pos (ls : List DhcpLease) (buf : List Char) (pos : ℕ) (size : ℤ) :
    ((acquireLoop q ls buf pos size).value.2.1 : ℤ) =
      pos + size - (acquireLoop q ls buf pos size).value.2.2 := by
  induction ls generalizing buf pos size with
  | nil => simp [acquireLoop]
  | cons l ls ih =>
    rw [acquireLoop]
    by_cases hsize : size = 0
    · simp [hsize]
    · rw [if_neg hsize]
      by_cases hex : exempt q.qosCli (inetNtoa l.ip) = true
      · rw [if_pos hex]
        exact ih buf pos size
      · rw [if_neg hex, Traced.value_bind, ih]
        push_cast
        ring

/-- There is never more room than before. -/
theorem acquireLoop_room_le (ls : List DhcpLease) (buf : List Char) (pos : ℕ) (size : ℤ) :
    (acquireLoop q ls buf pos size).value.2.2 ≤ size := by
  induction ls generalizing buf pos size with
  | nil => simp [acquireLoop]
  | cons l ls ih =>
    rw [acquireLoop]
    by_cases hsize : size = 0
    · simp [hsize]
    · rw [if_neg hsize]
      by_cases hex : exempt q.qosCli (inetNtoa l.ip) = true
      · rw [if_pos hex]
        exact ih buf pos size
      · rw [if_neg hex, Traced.value_bind]
        exact (ih _ _ _).trans (sub_le_self _ (Int.natCast_nonneg _))

/-- **The room is used up exactly** when the entries of some of the leases fill it. -/
theorem acquireLoop_room_eq_zero_iff (ls : List DhcpLease) (buf : List Char) (pos : ℕ) (size : ℤ) :
    (acquireLoop q ls buf pos size).value.2.2 = 0 ↔
      ∃ k, (totalLength q (ls.take k) : ℤ) = size := by
  induction ls generalizing buf pos size with
  | nil =>
    simp only [acquireLoop, Traced.value_pure, List.take_nil, exists_const]
    exact eq_comm
  | cons l ls ih =>
    rw [acquireLoop]
    by_cases hsize : size = 0
    · rw [if_pos hsize]
      exact iff_of_true hsize ⟨0, hsize.symm⟩
    · rw [if_neg hsize]
      -- no lease at all does not fill it
      have hshift : (∃ k, (totalLength q ((l :: ls).take k) : ℤ) = size) ↔
          ∃ k, (totalLength q (l :: ls.take k) : ℤ) = size := by
        constructor
        · rintro ⟨_ | k, hk⟩
          · exact absurd hk.symm hsize
          · exact ⟨k, hk⟩
        · rintro ⟨k, hk⟩
          exact ⟨k + 1, hk⟩
      rw [hshift]
      by_cases hex : exempt q.qosCli (inetNtoa l.ip) = true
      · rw [if_pos hex, ih]
        exact exists_congr fun k => by rw [totalLength_cons_of_exempt hex]
      · rw [if_neg hex, Traced.value_bind, ih]
        refine exists_congr fun k => ?_
        rw [totalLength_cons hex, Nat.cast_add]
        constructor <;> intro h <;> linarith

/-- **The loop stays inside** as long as it does not use more room than there is. -/
theorem inside_acquireLoop (ls : List DhcpLease) (buf : List Char) (pos : ℕ) (size : ℤ)
    (hsize : (pos : ℤ) + size = n) (hroom : 0 ≤ (acquireLoop q ls buf pos size).value.2.2) :
    ∀ a ∈ (acquireLoop q ls buf pos size).log, a.Inside fun _ => n := by
  induction ls generalizing buf pos size with
  | nil => exact List.forall_mem_nil _
  | cons l ls ih =>
    have hle := hroom.trans (acquireLoop_room_le (l :: ls) buf pos size)
    rw [acquireLoop] at hroom ⊢
    by_cases hzero : size = 0
    · rw [if_pos hzero]
      exact List.forall_mem_nil _
    · rw [if_neg hzero] at hroom ⊢
      by_cases hex : exempt q.qosCli (inetNtoa l.ip) = true
      · rw [if_pos hex] at hroom ⊢
        exact ih buf pos size hsize hroom
      · rw [if_neg hex] at hroom ⊢
        rw [Traced.value_bind] at hroom
        refine List.forall_mem_cons.mpr ⟨?_, ih _ _ _ ?_ hroom⟩
        · have hlen : (snprintf size (entry q.brandlimit l.ip)).length ≤ size := by
            rw [snprintf, if_neg hzero, if_pos (by omega)]
            simp only [List.length_append, List.length_take, List.length_singleton]
            omega
          refine Or.inr ⟨Int.natCast_nonneg _, ?_⟩
          show (pos : ℤ) + (snprintf size (entry q.brandlimit l.ip)).length ≤ n
          omega
        · push_cast
          omega

/-- The room that the loop leaves decides about the last write as well. -/
theorem inside_acquireIpQosList_iff (ls : List DhcpLease) (buf : List Char) (n : ℕ) :
    (∀ a ∈ (acquireIpQosList q (some ls) buf n).log, a.Inside fun _ => n) ↔
      0 ≤ (acquireLoop q ls buf 0 n).value.2.2 ∧ (acquireLoop q ls buf 0 n).value.2.2 < n := by
  have hpos := acquireLoop_pos (q := q) ls buf 0 n
  rw [Nat.cast_zero, zero_add] at hpos
  have hlog : (acquireIpQosList q (some ls) buf n).log = (acquireLoop q ls buf 0 n).log ++
      [⟨.ipQosList, .write, (acquireLoop q ls buf 0 n).value.2.1 - 1, 1⟩] := by
    rw [acquireIpQosList, Traced.log_bind]
    rfl
  rw [hlog, List.forall_mem_append, List.forall_mem_singleton]
  have hlast : (⟨.ipQosList, .write, (acquireLoop q ls buf 0 n).value.2.1 - 1, 1⟩ :
      Access QosBuf).Inside (fun _ => n) ↔
        0 ≤ (acquireLoop q ls buf 0 n).value.2.2 ∧ (acquireLoop q ls buf 0 n).value.2.2 < n := by
    rw [Access.Inside, hpos]
    simp only [one_ne_zero, false_or]
    omega
  rw [hlast]
  refine and_iff_right_of_imp fun h => ?_
  exact inside_acquireLoop ls buf 0 n (by simp) h.1

end Writes

/-! ## Which lease files fit -/

/-- Every write is inside of the buffer. -/
def ListInside (q : TqQosCtl) (leases : LeaseFile) (buf : List Char) (size : ℕ) : Prop :=
  ∀ a ∈ (acquireIpQosList q leases buf size).log, a.Inside fun _ => size

/-- A length between 0 and the size of the buffer is returned only with a complete list. -/
def ListComplete (q : TqQosCtl) (leases : LeaseFile) (buf : List Char) (size : ℕ) : Prop :=
  0 < (acquireIpQosList q leases buf size).value.2 →
    (acquireIpQosList q leases buf size).value.2 < size →
      ∃ ls rest, leases = some ls ∧
        (acquireIpQosList q leases buf size).value =
          (limitList q ls ++ '\x00' :: rest, (totalLength q ls : ℤ))

/-- There are entries and they fit with a terminator, or those of some of the leases fill the buffer
exactly. -/
def EntriesFit (q : TqQosCtl) (leases : LeaseFile) (size : ℕ) : Prop :=
  ∀ ls, leases = some ls →
    0 < totalLength q ls ∧ totalLength q ls < size ∨ ∃ k, totalLength q (ls.take k) = size

section Fits

variable {q : TqQosCtl} {leases : LeaseFile} {buf : List Char} {size : ℕ}

/-- A short length is always that of a complete list. -/
theorem listComplete (hbuf : buf.length = size) : ListComplete q leases buf size := by
  intro hpos hlt
  cases leases with
  | none => exact absurd hpos (lt_irrefl 0)
  | some ls =>
    have hval : (acquireIpQosList q (some ls) buf size).value.2 =
        size - (acquireLoop q ls buf 0 size).value.2.2 := by
      rw [acquireIpQosList, Traced.value_bind]
      rfl
    rw [hval] at hpos hlt
    obtain ⟨hroom, hfull⟩ := acquireLoop_room q ls buf 0 size
    have hshort : (totalLength q ls : ℤ) < size := by
      by_contra hnot
      have hnone := hfull (not_lt.mp hnot)
      omega
    rw [hroom hshort] at hpos
    have hsome : 0 < totalLength q ls := by omega
    obtain ⟨rest, htext⟩ := acquireIpQosList_text hbuf hsome (by exact_mod_cast hshort)
    exact ⟨ls, rest, rfl, htext⟩

/-- **The buffer is kept** exactly if there is no lease file, or its entries fit. -/
theorem listSafe_iff (q : TqQosCtl) (leases : LeaseFile) (buf : List Char) (size : ℕ)
    (hbuf : buf.length = size) (hsize : 1 ≤ size) :
    (ListInside q leases buf size ∧ ListComplete q leases buf size) ↔
      EntriesFit q leases size := by
  rw [and_iff_left (listComplete hbuf), ListInside]
  cases leases with
  | none => exact iff_of_true (List.forall_mem_nil _) nofun
  | some ls =>
    have hsome : EntriesFit q (some ls) size ↔
        0 < totalLength q ls ∧ totalLength q ls < size ∨
          ∃ k, totalLength q (ls.take k) = size :=
      ⟨fun h => h ls rfl, fun h _ heq => Option.some.inj heq ▸ h⟩
    have hzero := acquireLoop_room_eq_zero_iff (q := q) ls buf 0 size
    simp only [Nat.cast_inj] at hzero
    rw [inside_acquireIpQosList_iff, hsome, ← hzero]
    obtain ⟨hroom, hfull⟩ := acquireLoop_room q ls buf 0 size
    by_cases hlt : (totalLength q ls : ℤ) < size
    · rw [hroom hlt]
      omega
    · have := hfull (not_lt.mp hlt)
      omega

/-- With a lease file that holds no lease it writes in front of the buffer. -/
theorem not_listSafe_noLease :
    ¬ (ListInside .zero (some []) (List.replicate sizeBase '\x00') sizeBase ∧
      ListComplete .zero (some []) (List.replicate sizeBase '\x00') sizeBase) := by
  intro h
  have hbefore := h.1 ⟨.ipQosList, .write, -1, 1⟩ (List.mem_singleton_self _)
  simp [Access.Inside] at hbefore

/-- The lease of another host, in a buffer of 25 characters. -/
theorem listSafe_oneLease : (List.replicate 25 '\x00').length = 25 ∧ 1 ≤ 25 ∧
    EntriesFit .zero otherLease 25 ∧ ListInside .zero otherLease (List.replicate 25 '\x00') 25 :=
  have hfit : EntriesFit .zero otherLease 25 := fun _ hls =>
    Option.some.inj hls ▸ Or.inl (by decide +kernel)
  ⟨rfl, by decide, hfit,
    ((listSafe_iff .zero otherLease (List.replicate 25 '\x00') 25 rfl (by decide)).mpr hfit).1⟩

end Fits

/-! ## The list of a lease file that fits -/

/-- The number in an entry. -/
def listedLimit (brandlimit : ℤ) : ℤ := if 0 < brandlimit then 1000 * brandlimit else 1000

/-- `"ip,L,L;"`. -/
def listedEntry (brandlimit : ℤ) (ip : UInt32) : List Char :=
  inetNtoa ip ++ [','] ++ toDec (listedLimit brandlimit) ++ [','] ++
    toDec (listedLimit brandlimit) ++ [';']

/-- The lease is that of a host other than the enabled clients. -/
def Listed (q : TqQosCtl) (l : DhcpLease) : Prop :=
  ∀ i, (q.qosCli i).en = true → (q.qosCli i).ip ≠ inetNtoa l.ip

instance (q : TqQosCtl) (l : DhcpLease) : Decidable (Listed q l) :=
  inferInstanceAs (Decidable (∀ _, _))

/-- The entries of a lease file, in its order. -/
def listedEntries (q : TqQosCtl) (ls : List DhcpLease) : List Char :=
  ((ls.filter fun l => decide (Listed q l)).map fun l => listedEntry q.brandlimit l.ip).flatten

section Listed

variable {q : TqQosCtl} {ls : List DhcpLease}

/-- Below the largest limit the product does not overflow. -/
theorem limit_eq {b : ℤ} (hb : b ≤ 2147483) : limit b = listedLimit b := by
  rw [limit, listedLimit]
  by_cases hpos : 0 < b
  · rw [if_pos hpos, if_pos hpos, mul_comm]
    exact Int.bmod_eq_of_le_mul_two (by omega) (by omega)
  · rw [if_neg hpos, if_neg hpos]

theorem listed_iff (q : TqQosCtl) (l : DhcpLease) :
    Listed q l ↔ exempt q.qosCli (inetNtoa l.ip) = false := by
  simp only [Listed, exempt, List.any_eq_false, List.mem_finRange, forall_const,
    Bool.and_eq_true, decide_eq_true_eq, not_and, ne_eq]
  exact forall_congr' fun i => imp_congr_right fun _ => not_congr eq_comm

theorem entries_eq (hb : q.brandlimit ≤ 2147483) (ls : List DhcpLease) :
    entries q ls = listedEntries q ls := by
  have hfilter : (fun l : DhcpLease => !exempt q.qosCli (inetNtoa l.ip)) =
      fun l => decide (Listed q l) := by
    funext l
    rw [Bool.eq_iff_iff, decide_eq_true_iff, listed_iff, Bool.not_eq_true']
  rw [entries, listedEntries, hfilter]
  simp only [entry, listedEntry, limit_eq hb]

/-- The last character of the entries is a semicolon. -/
theorem entries_eq_append (hpos : 0 < totalLength q ls) :
    entries q ls = limitList q ls ++ [';'] := by
  have hends : entries q ls = [] ∨ ∃ text, entries q ls = text ++ [';'] := by
    clear hpos
    induction ls with
    | nil => exact Or.inl rfl
    | cons l ls ih =>
      by_cases hex : exempt q.qosCli (inetNtoa l.ip) = true
      · rw [entries_cons_of_exempt hex]
        exact ih
      · rw [entries_cons hex]
        refine Or.inr ?_
        obtain hnil | ⟨text, htext⟩ := ih
        · exact ⟨_, by rw [hnil, List.append_nil, entry]⟩
        · exact ⟨entry q.brandlimit l.ip ++ text, by rw [htext, List.append_assoc]⟩
  rw [limitList]
  obtain hnil | ⟨text, htext⟩ := hends
  · rw [← length_entries, hnil] at hpos
    exact absurd hpos (lt_irrefl 0)
  · rw [htext, List.dropLast_concat]

/-- **The list of a lease file**: the entries of the other hosts in the order of the file, with a
terminator for the last semicolon. The value that is returned counts the terminator, so that
comparing and copying that many characters is comparing and copying the whole string. -/
theorem acquireIpQosList_list (q : TqQosCtl) (ls : List DhcpLease) (buf : List Char) (N : ℕ)
    (hbuf : buf.length = N) (hb : q.brandlimit ≤ 2147483) (hpos : 0 < (listedEntries q ls).length)
    (hlt : (listedEntries q ls).length < N) :
    ∃ list rest, listedEntries q ls = list ++ [';'] ∧ '\x00' ∉ list ∧
      (acquireIpQosList q (some ls) buf N).value =
        (list ++ '\x00' :: rest, (list.length + 1 : ℤ)) ∧
      ∀ old, '\x00' ∉ old →
        (strncmpEq old list (list.length + 1) = true ↔ old = list) ∧
          strncpy old list (list.length + 1) = list := by
  rw [← entries_eq hb, length_entries] at hpos hlt
  obtain ⟨rest, hval⟩ := acquireIpQosList_text hbuf hpos hlt
  have hlen : totalLength q ls = (limitList q ls).length + 1 := by
    rw [length_limitList]
    omega
  rw [hlen, Nat.cast_succ] at hval
  refine ⟨limitList q ls, rest, ?_, nul_notMem_limitList q ls, hval, fun old hold => ?_⟩
  · rw [← entries_eq hb]
    exact entries_eq_append hpos
  · have hshort : (limitList q ls).length < (limitList q ls).length + 1 := Nat.lt_succ_self _
    refine ⟨strncmpEq_iff hold (nul_notMem_limitList q ls) hshort, ?_⟩
    rw [strncpy, if_pos hshort]

/-- The list for a limit of 2 in a buffer of 25 characters, and an older list that goes on. -/
theorem acquireIpQosList_oneLease :
    ∃ list rest, list = "192.168.1.9,2000,2000".toList ∧
      (acquireIpQosList { TqQosCtl.zero with brandlimit := 2 } otherLease
        (List.replicate 25 '\x00') 25).value = (list ++ '\x00' :: rest, 22) ∧
      strncmpEq (list ++ [';', '1']) list 22 = false := by
  obtain ⟨list, rest, hentries, -, hval, hold⟩ :=
    acquireIpQosList_list { TqQosCtl.zero with brandlimit := 2 }
      [⟨Vector.replicate 16 0, 0x0901a8c0⟩] (List.replicate 25 '\x00') 25 rfl (by decide)
      (by decide +kernel) (by decide +kernel)
  have hlist : list = "192.168.1.9,2000,2000".toList := by
    have hall : listedEntries { TqQosCtl.zero with brandlimit := 2 }
        [⟨Vector.replicate 16 0, 0x0901a8c0⟩] = "192.168.1.9,2000,2000".toList ++ [';'] := by
      decide +kernel
    exact (List.append_inj_left' (hall.symm.trans hentries) rfl).symm
  subst hlist
  refine ⟨_, rest, rfl, hval, ?_⟩
  exact Bool.eq_false_iff.mpr fun h => absurd ((hold _ (by decide)).1.mp h) (by decide)

end Listed

end Tqos
