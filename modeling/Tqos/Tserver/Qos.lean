import Mathlib.Data.List.TakeWhile
import Tqos.Lib.Traced
import Tqos.Tserver.Clients

/-!
# The QoS override

`tq_qos.c`: the limit list is made from the lease file (`acquire_ip_qos_list`), written to nvram
when a session starts (`start_qos`) and looked after by the tick (`qos_tm_handler`).

## What the system calls do

`/tmp/qos.sh` sets both settings to its arguments. It runs in the background; the model takes it as
done when `system` returns. The script tests and passes its second argument without quotes, so that
a list with blanks in it is set as the empty one: `unquoted`. Characters that mean something to the
shell, and words that are operators of `[`, are taken not to occur.

Logging is left out, although a list of more than about 230 characters is too long for the
`msg[256]` of `LOG_P`. So are the buffers of 1024 characters that hold a command line on its way to
`system`: with its terminator it takes 21 characters more than the list. The handlers go on with a
list of 1004 to 1022 characters, that is with entries of a total length from 1005, although its
command line does not fit; what the program does from there on is not in the model.

## The list buffer

Every write into the buffer of `acquire_ip_qos_list` is logged; one outside has no effect on the
model. The room left is an integer here. In the program it is a `size_t` that wraps below zero,
which is the same for what is done with it: the loop asks whether it is zero, and `snprintf` takes
any wrapped value for unlimited room. A lease file that a 32-bit `fopen` can open has less than `2 ^
26` leases, so the total length stays far below `2 ^ 32`.

## Main results

* `acquireLoop_room` — the loop uses up the total length of the entries, as long as that fits
* `usable_iff` — the lease files with which the two handlers go on
-/

namespace Tqos

/-! ## `acquire_ip_qos_list` -/

/-- The buffer that is filled. -/
inductive QosBuf
  /-- `ip_qos_list` of the caller. -/
  | ipQosList
deriving DecidableEq, Repr

/-- Whether the address of a lease is that of an enabled client, so that it is passed over. -/
def exempt (tab : Fin cliMax → QosCli) (ipAddr : List Char) : Bool :=
  (List.finRange cliMax).any fun i => (tab i).en && decide (ipAddr = (tab i).ip)

/-- `brandlimit*1000`, in 32 bits, or 1000. -/
def limit (brandlimit : ℤ) : ℤ :=
  if 0 < brandlimit then (brandlimit * 1000).bmod (2 ^ 32) else 1000

/-- What is printed for a lease: `"%s,%d,%d;"`. -/
def entry (brandlimit : ℤ) (ip : UInt32) : List Char :=
  inetNtoa ip ++ [','] ++ toDec (limit brandlimit) ++ [','] ++ toDec (limit brandlimit) ++ [';']

/-- The characters `snprintf` writes when it prints `text` into `size` characters of room. -/
def snprintf (size : ℤ) (text : List Char) : List Char :=
  if size = 0 then []
  else if 0 < size then text.take (size.toNat - 1) ++ ['\x00']
  else text ++ ['\x00']

/-- The loop of `acquire_ip_qos_list`: `pos` is how far `ip_qos_list` was moved. -/
def acquireLoop (q : TqQosCtl) : List DhcpLease → List Char → ℕ → ℤ →
    Traced Empty QosBuf (List Char × ℕ × ℤ)
  | [], buf, pos, size => pure (buf, pos, size)
  | l :: ls, buf, pos, size =>
    if size = 0 then pure (buf, pos, size)
    else if exempt q.qosCli (inetNtoa l.ip) then acquireLoop q ls buf pos size
    else do
      let text := entry q.brandlimit l.ip
      let buf ← Traced.store .ipQosList buf pos (snprintf size text)
      acquireLoop q ls buf (pos + text.length) (size - text.length)

/-- `acquire_ip_qos_list` on a buffer of `size` characters. -/
def acquireIpQosList (q : TqQosCtl) (leases : LeaseFile) (buf : List Char) (size : ℕ) :
    Traced Empty QosBuf (List Char × ℤ) :=
  match leases with
  | none => pure (buf, 0)
  | some ls => do
    let r ← acquireLoop q ls buf 0 size
    -- the last semicolon; with no entry this is the character in front of the buffer
    let buf ← Traced.store .ipQosList r.1 (r.2.1 - 1) ['\x00']
    pure (buf, size - r.2.2)

/-- The total length of the entries of the leases that are not passed over. -/
def totalLength (q : TqQosCtl) (ls : List DhcpLease) : ℕ :=
  ((ls.filter fun l => !exempt q.qosCli (inetNtoa l.ip)).map fun l =>
    (entry q.brandlimit l.ip).length).sum

section Room

variable {q : TqQosCtl} {ls : List DhcpLease} {l : DhcpLease}

theorem totalLength_cons_of_exempt (h : exempt q.qosCli (inetNtoa l.ip) = true) :
    totalLength q (l :: ls) = totalLength q ls := by
  simp [totalLength, h]

theorem totalLength_cons (h : ¬ exempt q.qosCli (inetNtoa l.ip) = true) :
    totalLength q (l :: ls) = (entry q.brandlimit l.ip).length + totalLength q ls := by
  simp [totalLength, h]

end Room

/-- The loop uses up the total length of the entries, unless it is more than the room there is; then
it leaves no room. -/
theorem acquireLoop_room (q : TqQosCtl) (ls : List DhcpLease) (buf : List Char) (pos : ℕ)
    (size : ℤ) :
    (totalLength q ls < size →
        (acquireLoop q ls buf pos size).value.2.2 = size - totalLength q ls) ∧
      (size ≤ totalLength q ls → (acquireLoop q ls buf pos size).value.2.2 ≤ 0) := by
  induction ls generalizing buf pos size with
  | nil => simp [acquireLoop, totalLength]
  | cons l ls ih =>
    rw [acquireLoop]
    by_cases hsize : size = 0
    · subst hsize
      simp
    · rw [if_neg hsize]
      by_cases hex : exempt q.qosCli (inetNtoa l.ip) = true
      · rw [if_pos hex, totalLength_cons_of_exempt hex]
        exact ih buf pos size
      · rw [if_neg hex, totalLength_cons hex, Traced.value_bind]
        obtain ⟨hlt, hle⟩ := ih
          (Traced.store QosBuf.ipQosList buf (pos : ℤ) (snprintf size (entry q.brandlimit l.ip)) :
            Traced Empty QosBuf (List Char)).value (pos + (entry q.brandlimit l.ip).length)
          (size - (entry q.brandlimit l.ip).length)
        refine ⟨fun h => ?_, fun h => hle (by push_cast at h; omega)⟩
        rw [hlt (by push_cast at h; omega)]
        push_cast
        ring

/-- The list as `start_qos` and `qos_tm_handler` ask for it. -/
def ipQosListOf (q : TqQosCtl) (leases : LeaseFile) : List Char × ℤ :=
  (acquireIpQosList q leases (List.replicate sizeBase '\x00') sizeBase).value

/-- The lease file gives a list the handlers can use: at least one entry, and all fit. -/
def Usable (q : TqQosCtl) (leases : LeaseFile) : Prop :=
  ∃ ls, leases = some ls ∧ 0 < totalLength q ls ∧ totalLength q ls < sizeBase

instance (q : TqQosCtl) (leases : LeaseFile) : Decidable (Usable q leases) :=
  match leases with
  | none => isFalse fun ⟨_, h, _⟩ => nomatch h
  | some ls =>
    decidable_of_iff (0 < totalLength q ls ∧ totalLength q ls < sizeBase)
      ⟨fun h => ⟨ls, rfl, h⟩, fun ⟨_, h, h'⟩ => Option.some.inj h ▸ h'⟩

/-- **When the list is good.** The test the handlers make of the returned value fails exactly on the
lease files that give a usable list. -/
theorem usable_iff (q : TqQosCtl) (leases : LeaseFile) :
    ¬ ((ipQosListOf q leases).2 = 0 ∨ (sizeBase : ℤ) ≤ (ipQosListOf q leases).2) ↔
      Usable q leases := by
  cases leases with
  | none => simp [ipQosListOf, acquireIpQosList, Usable]
  | some ls =>
    have hval : (ipQosListOf q (some ls)).2 =
        sizeBase - (acquireLoop q ls (List.replicate sizeBase '\x00') 0 sizeBase).value.2.2 := by
      simp [ipQosListOf, acquireIpQosList]
    obtain ⟨hlt, hle⟩ := acquireLoop_room q ls (List.replicate sizeBase '\x00') 0 sizeBase
    have husable : Usable q (some ls) ↔ 0 < totalLength q ls ∧ totalLength q ls < sizeBase := by
      simp [Usable]
    rw [hval, husable]
    rcases lt_or_ge (totalLength q ls) sizeBase with h | h
    · rw [hlt (by exact_mod_cast h)]
      omega
    · have := hle (by exact_mod_cast h)
      omega

/-! ## The handlers -/

/-- What separates words for the shell. -/
def isBlank (c : Char) : Bool := c == ' ' || c == '\t' || c == '\n'

/-- What `if [ ! -z $2 ]` sets for `$2`: the word it is, or nothing if it is none or several, on
which the test fails. -/
def unquoted (arg : List Char) : List Char :=
  let word := arg.dropWhile isBlank
  if (word.dropWhile fun c => !isBlank c).all isBlank then word.takeWhile fun c => !isBlank c
  else []

/-- A word stays as it is. -/
theorem unquoted_of_word {arg : List Char} (h : ∀ c ∈ arg, isBlank c = false) :
    unquoted arg = arg := by
  have hword : ∀ c ∈ arg, (!isBlank c) = true := fun c hc => by rw [h c hc]; rfl
  have hfront : arg.dropWhile isBlank = arg := by
    cases arg with
    | nil => rfl
    | cons c arg => exact List.dropWhile_cons_of_neg (by simp [h c List.mem_cons_self])
  have hrest : arg.dropWhile (fun c => !isBlank c) = [] := List.dropWhile_eq_nil_iff.mpr hword
  rw [unquoted, hfront, hrest]
  exact List.takeWhile_eq_self_iff.mpr hword

/-- `/tmp/qos.sh`. -/
def qosSh (qosEnable ipQosList : List Char) : Nvram := ⟨qosEnable, unquoted ipQosList⟩

/-- A list of two words is lost. -/
example : qosSh ['2'] ['a', ' ', 'b'] = ⟨['2'], []⟩ := by decide

/-- `strncpy` into a buffer that holds the string `dst`. -/
def strncpy (dst src : List Char) (n : ℕ) : List Char :=
  if src.length < n then src else src.take n ++ dst.drop n

/-- `strncmp` returning 0. -/
def strncmpEq (a b : List Char) (n : ℕ) : Bool :=
  (a ++ ['\x00']).take n == (b ++ ['\x00']).take n

/-- `start_qos`. -/
def startQos (leases : LeaseFile) (s : Server) : Server :=
  let r := ipQosListOf s.tqQos leases
  if r.2 = 0 ∨ (sizeBase : ℤ) ≤ r.2 then s
  else
    let ipQosList := cstr r.1
    { s with
      tqQos := { s.tqQos with ipList := strncpy s.tqQos.ipList ipQosList r.2.toNat }
      nvram := qosSh ['2'] ipQosList }

/-- The part of `qos_tm_handler` that ends a session and puts the saved settings back. -/
def restoreQos (s : Server) : Server :=
  { s with
    tqQos := { s.tqQos with qosTmMax := 0, enable := false, cliCnt := 0 }
    nvram := qosSh (if s.cfg.qos.en then ['2'] else ['0']) s.cfg.qos.ipList }

/-- `qos_tm_handler`, where the clock is read as `now` if the timer is set again. -/
def qosTmHandler (leases : LeaseFile) (now : ℕ) (s : Server) : Server :=
  let s := { s with tqQos := updateQosInfo s.tqQos }
  let r := ipQosListOf s.tqQos leases
  -- no list: neither is the timer set again nor the session ended
  if r.2 = 0 ∨ (sizeBase : ℤ) ≤ r.2 then s
  else if s.tqQos.cliCnt ≤ 0 ∨ s.tqQos.qosTmMax ≤ 0 ∨ s.tqQos.enable = false then restoreQos s
  else
    let ipQosList := cstr r.1
    let s :=
      if strncmpEq s.tqQos.ipList ipQosList r.2.toNat then s
      else { s with nvram := qosSh ['2'] ipQosList }
    if s.tqQos.enable = true ∧ 0 < s.tqQos.cliCnt then
      tqTimerNew
        { s with tqQos := { s.tqQos with ipList := strncpy s.tqQos.ipList ipQosList r.2.toNat } }
        .qosTmHandler timeQos now
    else s

/-- `start_qos` changes the cached list and nvram, if anything. -/
theorem exists_startQos (leases : LeaseFile) (s : Server) :
    ∃ q nv, startQos leases s = { s with tqQos := q, nvram := nv } := by
  rw [startQos]
  dsimp only
  split
  · exact ⟨s.tqQos, s.nvram, rfl⟩
  · exact ⟨_, _, rfl⟩

/-- A tick changes the QoS part and nvram, and then sets its timer again or does not. -/
theorem exists_qosTmHandler (leases : LeaseFile) (now : ℕ) (s : Server) : ∃ q nv,
    qosTmHandler leases now s = { s with tqQos := q, nvram := nv } ∨
      qosTmHandler leases now s =
        tqTimerNew { s with tqQos := q, nvram := nv } .qosTmHandler timeQos now := by
  rw [qosTmHandler]
  dsimp only
  split
  · exact ⟨_, _, Or.inl rfl⟩
  split
  · exact ⟨_, _, Or.inl rfl⟩
  split <;> split
  · exact ⟨_, _, Or.inr rfl⟩
  · exact ⟨_, _, Or.inl rfl⟩
  · exact ⟨_, _, Or.inr rfl⟩
  · exact ⟨_, _, Or.inl rfl⟩

end Tqos
