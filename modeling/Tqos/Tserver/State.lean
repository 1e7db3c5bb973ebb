import Mathlib.Data.Fin.Tuple.Basic
import Tqos.Lib.Bytes
import Tqos.Lib.DeadlineQueue

/-!
# The state of the server

The global structures of `tserver.h`, the settings in nvram and what the process leaves outside of
itself. C strings are lists of characters without the terminator, a table is a function of the
index, and an `int` is an integer that is brought back into its range where arithmetic can leave it.
The target, `mipsel`, is little-endian and has 32 bits, so that a `long` is as wide as an `int`.
Fields that the program only writes (the node of a timer kept in `tm`, the time of a sample,
`interface`) are left out.

## Addresses

An address is the 32-bit number `s_addr`, whose bytes in memory are the four numbers of the dotted
notation in order. The server compares clients sometimes by the number and sometimes by the text, so
`inetNtoa_injective` is what makes both comparisons mean the same.
-/

namespace Tqos

/-! ## C strings -/

/-- The string a buffer holds: what stands before the first NUL. -/
def cstr (buf : List Char) : List Char := buf.takeWhile (· ≠ '\x00')

/-- `%d`. -/
def toDec (n : ℤ) : List Char :=
  if n < 0 then '-' :: Nat.toDigits 10 n.natAbs else Nat.toDigits 10 n.natAbs

/-- `inet_ntoa`, on the little-endian target. -/
def inetNtoa (addr : UInt32) : List Char :=
  ['.'].intercalate ((le32 addr).map fun b => Nat.toDigits 10 b.toNat)

theorem toDigits_injective : Function.Injective (Nat.toDigits 10) := fun m n h => by
  rw [← Nat.ofDigitChars_ten_toDigits (n := m), h, Nat.ofDigitChars_ten_toDigits]

/-- A number is printed with digits. -/
theorem notMem_toDigits {c : Char} (hc : c.isDigit = false) (n : ℕ) : c ∉ Nat.toDigits 10 n := by
  intro hmem
  rw [Nat.isDigit_of_mem_toDigits (by decide) (by decide) hmem] at hc
  exact absurd hc (by decide)

/-- `isspace`. -/
def isspace (c : Char) : Bool := c == ' ' || (decide ('\t' ≤ c) && decide (c ≤ '\r'))

/-- A digit is no blank. -/
theorem isspace_of_isDigit {c : Char} (hc : c.isDigit = true) : isspace c = false := by
  have hlower : 48 ≤ c.toNat := (Char.isDigit_iff_toNat.mp hc).1
  rw [isspace, Bool.or_eq_false_iff, Bool.and_eq_false_iff, beq_eq_false_iff_ne,
    decide_eq_false_iff_not, decide_eq_false_iff_not]
  refine ⟨?_, Or.inr fun hle => ?_⟩
  · rintro rfl
    exact absurd hlower (by decide)
  · have hupper : c.toNat ≤ 13 := hle
    omega

/-- `%d` prints digits and perhaps a sign. -/
theorem notMem_toDec {c : Char} (hc : c.isDigit = false) (hsign : c ≠ '-') (n : ℤ) :
    c ∉ toDec n := by
  rw [toDec]
  split
  · exact List.not_mem_cons_of_ne_of_not_mem hsign (notMem_toDigits hc _)
  · exact notMem_toDigits hc _

theorem nul_notMem_toDec (n : ℤ) : '\x00' ∉ toDec n := notMem_toDec (by decide) (by decide) n

/-- An address is printed with digits and dots. -/
theorem notMem_inetNtoa {x : Char} (hx : x.isDigit = false) (hdot : x ≠ '.') (ip : UInt32) :
    x ∉ inetNtoa ip := by
  obtain ⟨a, b, c, d, habcd⟩ : ∃ a b c d, le32 ip = [a, b, c, d] := ⟨_, _, _, _, rfl⟩
  have hdigits (n : ℕ) : x ∉ Nat.toDigits 10 n := notMem_toDigits hx n
  simp [inetNtoa, habcd, List.intercalate, hdigits, hdot]

theorem nul_notMem_inetNtoa (ip : UInt32) : '\x00' ∉ inetNtoa ip :=
  notMem_inetNtoa (by decide) (by decide) ip

theorem le32_injective : Function.Injective le32 := fun a b h => by
  rw [← ofNat_natLE_le32 a, h, ofNat_natLE_le32]

/-- The parts of the text of an address. -/
theorem splitOn_inetNtoa (ip : UInt32) :
    (inetNtoa ip).splitOn '.' = (le32 ip).map fun b => Nat.toDigits 10 b.toNat := by
  have hdot : ∀ l ∈ (le32 ip).map fun b => Nat.toDigits 10 b.toNat, '.' ∉ l := by
    intro l hl hmem
    obtain ⟨d, -, rfl⟩ := List.mem_map.mp hl
    exact notMem_toDigits (by decide) _ hmem
  have hne : (le32 ip).map (fun b => Nat.toDigits 10 b.toNat) ≠ [] := by
    rw [ne_eq, List.map_eq_nil_iff, ← List.length_eq_zero_iff, length_le32]
    decide
  rw [inetNtoa, List.splitOn_intercalate _ hdot hne]

/-- **Different addresses have different texts.** -/
theorem inetNtoa_injective : Function.Injective inetNtoa := by
  intro a b h
  have hsplit := congrArg (List.splitOn '.') h
  rw [splitOn_inetNtoa, splitOn_inetNtoa] at hsplit
  have hinj : Function.Injective fun b : UInt8 => Nat.toDigits 10 b.toNat :=
    fun c d hcd => UInt8.toNat.inj (toDigits_injective hcd)
  exact le32_injective (List.map_injective_iff.mpr hinj hsplit)

/-! ## The structures -/

/-- `CLI_MAX`. -/
abbrev cliMax : ℕ := 64

/-- `SIZE_BASE`. -/
abbrev sizeBase : ℕ := 1024

/-- `SIZE_IP`. -/
abbrev sizeIp : ℕ := 32

/-- `SIZE_DIAG`. -/
abbrev sizeDiag : ℕ := 12

instance : NeZero sizeDiag := ⟨Nat.succ_ne_zero 11⟩

/-- `SIZE_BUF_TRAC`. -/
abbrev sizeBufTrac : ℕ := sizeBase * 3

/-- `TIME_QOS`, in seconds. -/
abbrev timeQos : ℕ := 20

/-- `struct qos_cli`: a client with its countdown, in ticks of the QoS timer. -/
structure QosCli where
  en : Bool
  ip : List Char
  times : ℤ
deriving DecidableEq, Repr

/-- `struct tq_qos_ctl`. -/
structure TqQosCtl where
  enable : Bool
  brandlimit : ℤ
  qosCli : Fin cliMax → QosCli
  qosTmMax : ℤ
  cliCnt : ℤ
  ipList : List Char

/-- `struct tq_diag_data`. The two loads are percentages, so that the sum of twelve of them is an
`int`. -/
structure TqDiagData where
  errpack : ℤ
  losepack : ℤ
  cpu : ℤ
  memory : ℤ
  traffic : List Char
deriving DecidableEq

/-- `struct tq_diag_ctl`. -/
structure TqDiagCtl where
  enable : Bool
  lastIndex : ℕ
  diagnoses : Fin sizeDiag → TqDiagData

/-- `struct spp_cfg`. -/
structure SppCfg where
  doublegap : ℤ
  thirdgap : ℤ
  fourgap : ℤ
  dupgap : ℤ
deriving DecidableEq

/-- `struct qos_cfg`: the settings as they were saved. -/
structure QosCfg where
  en : Bool
  ipList : List Char
deriving DecidableEq

/-- `struct tq_cfg_s`. -/
structure TqCfg where
  ips : Fin cliMax → UInt32
  ipd : Fin cliMax → UInt32
  gap : SppCfg
  qos : QosCfg

/-- The two settings in nvram the program reads and overrides. -/
structure Nvram where
  qosEnable : List Char
  ipQosList : List Char
deriving DecidableEq

/-- The functions that are run by timers. -/
inductive Handler
  | startQos
  | qosTmHandler
  | diagTmHandler
deriving DecidableEq, Repr

/-- The netlink socket: how many messages were tried to be sent, and the data of those that went
through. -/
structure Link where
  tries : ℕ
  sent : List (List UInt8)
deriving DecidableEq

/-- Everything the server remembers, and what it changes outside of itself. -/
structure Server where
  /-- `ser_ctl.tq_qos`. -/
  tqQos : TqQosCtl
  /-- `ser_ctl.tq_diagnose`. -/
  tqDiagnose : TqDiagCtl
  /-- `cfg_ctl`. -/
  cfg : TqCfg
  /-- `timer_rbtree`. -/
  timers : DeadlineQueue Handler
  /-- `current_msec`, which counts seconds. -/
  currentMsec : ℕ
  /-- The settings in nvram. -/
  nvram : Nvram
  /-- `/data/qos_cfg.file`. -/
  qosCfgFile : Option Nvram
  /-- The netlink socket to the kernel module. -/
  link : Link

/-- A lease of the DHCP server, `struct dhcp_lease_s`. -/
structure DhcpLease where
  mac : Vector UInt8 16
  ip : UInt32
deriving DecidableEq

/-- The lease file, when it can be opened. -/
abbrev LeaseFile := Option (List DhcpLease)

/-- A slot of the client table that was never used. -/
def QosCli.zero : QosCli := ⟨false, [], 0⟩

/-- The QoS part of the state before any request. -/
def TqQosCtl.zero : TqQosCtl := ⟨false, 0, fun _ => .zero, 0, 0, []⟩

/-- A sample that was never taken. -/
def TqDiagData.zero : TqDiagData := ⟨0, 0, 0, 0, []⟩

/-- `server_init`, in a process started with the settings `nvram`: `main` has removed the file. -/
def serverInit (nvram : Nvram) : Server where
  tqQos := .zero
  tqDiagnose := ⟨false, 0, fun _ => .zero⟩
  cfg := ⟨fun _ => 0, fun _ => 0, ⟨0, 0, 0, 0⟩, ⟨false, []⟩⟩
  timers := .empty
  currentMsec := 0
  nvram := nvram
  qosCfgFile := none
  link := ⟨0, []⟩

/-! ## Timers -/

/-- `TIMER_LAZY_DELAY`. -/
abbrev timerLazyDelay : ℕ := 2

/-- `tq_timer_new`, at a clock reading of `now`: the clock is read into `current_msec`, and a timer
whose delay is below `TIMER_LAZY_DELAY` is lost. The counter does not wrap. -/
def tqTimerNew (s : Server) (func : Handler) (delay now : ℕ) : Server :=
  if delay < timerLazyDelay then { s with currentMsec := now }
  else { s with currentMsec := now, timers := s.timers.add ⟨now + delay, func⟩ }

@[simp] theorem tqQos_tqTimerNew (s : Server) (h : Handler) (delay now : ℕ) :
    (tqTimerNew s h delay now).tqQos = s.tqQos := by
  rw [tqTimerNew]
  split <;> rfl

/-- One turn of the loop of `expire_timers`: the earliest timer leaves the queue if it is due. -/
def takeDue (s : Server) : Option (Handler × Server) :=
  (s.timers.popDue s.currentMsec).map fun r => (r.1.handler, { s with timers := r.2 })

/-- How many timers with the handler `h` are pending. -/
def pending (h : Handler) (s : Server) : ℕ := s.timers.count h

end Tqos
