import Mathlib.Data.List.Pairwise
import Mathlib.Data.List.TakeWhile
import Tqos.Lib.Run
import Tqos.Spp.Kernel
import Tqos.Tserver.Nl

/-!
# When the copies are sent

Every copy has its own deadline, but they wait in one queue and the worker stops at the first that
is not due. So a copy waits for those in front of it, which matters when the delay is lowered while
copies with the longer delay are still there.

## Main results

* `timely_iff` — every run of the worker sends what is due and nothing else, exactly when no copy
  that is due stands behind one that is not
* `along_inOrder` — that is so when no copy is queued with a deadline before those in the queue
-/

namespace Tqos

namespace Spp

/-- The worker's queue after a run, and what it has sent. -/
abbrev dumpRun (s : Net) (now : UInt32) : List SppDumper × List SppDumper × UInt32 :=
  sppDumpWorkCb (fun _ => now) 0 s.dumpGc s.ndumper

/-- A run of the worker leaves no copy that is due, and sends none that is not. -/
def Timely (s : Net) : UInt32 × NetEvent → Prop
  | (now, .dumpWork) =>
    (∀ d ∈ (dumpRun s now).2.1, ¬ d.expires ≤ now) ∧ ∀ d ∈ (dumpRun s now).1, d.expires ≤ now
  | _ => True

/-- When the worker runs, no copy that is due stands behind one that is not. -/
def InOrder (s : Net) : UInt32 × NetEvent → Prop
  | (now, .dumpWork) => s.dumpGc.Pairwise fun a b => b.expires ≤ now → a.expires ≤ now
  | _ => True

instance (s : Net) : ∀ e, Decidable (Timely s e)
  | (now, .dumpWork) => inferInstanceAs (Decidable
      ((∀ d ∈ (dumpRun s now).2.1, ¬ d.expires ≤ now) ∧ ∀ d ∈ (dumpRun s now).1, d.expires ≤ now))
  | (_, .netlink ..) | (_, .up ..) | (_, .down ..) | (_, .trimWork) => isTrue trivial

variable (env : KernelEnv)

/-- The module as a machine over events at given readings of the clock. -/
def clockedStep (s : Net) (e : UInt32 × NetEvent) : Option Net := some (netStep env e.1 s e.2).1

/-- No element that satisfies `p` is behind the first that does not, exactly if none is behind any.
-/
theorem forall_mem_dropWhile_iff {α : Type} (p : α → Bool) (l : List α) :
    (∀ a ∈ l.dropWhile p, p a = false) ↔ l.Pairwise fun a b => p b = true → p a = true := by
  induction l with
  | nil => exact iff_of_true nofun List.Pairwise.nil
  | cons a l ih =>
    rw [List.pairwise_cons]
    by_cases ha : p a = true
    · rw [List.dropWhile_cons_of_pos ha, ih]
      exact ⟨fun h => ⟨fun _ _ _ => ha, h⟩, And.right⟩
    · rw [List.dropWhile_cons_of_neg ha, List.forall_mem_cons]
      have hfalse := (Bool.not_eq_true _).mp ha
      constructor
      · rintro ⟨-, hl⟩
        have hnone : ∀ b ∈ l, p b ≠ true := fun b hb => by
          rw [hl b hb]
          exact Bool.false_ne_true
        refine ⟨fun b hb hpb => absurd hpb (hnone b hb), ?_⟩
        exact List.pairwise_of_forall_mem_list fun b _ c hc hpc => absurd hpc (hnone c hc)
      · rintro ⟨hhead, -⟩
        refine ⟨hfalse, fun b hb => ?_⟩
        by_contra hpb
        exact ha (hhead b hb ((Bool.not_eq_false _).mp hpb))

section Runs

variable {env} {s : Net} {e : UInt32 × NetEvent} {es : List (UInt32 × NetEvent)}

/-- One run of the worker. -/
theorem timely_iff_inOrder : Timely s e ↔ InOrder s e := by
  obtain ⟨now, _ | _ | _ | _ | _⟩ := e
  case dumpWork =>
    obtain ⟨hsent, hleft⟩ := sppDumpWorkCb_const now 0 s.dumpGc s.ndumper
    rw [Timely, InOrder, dumpRun, hsent, hleft]
    have hdue : ∀ d ∈ s.dumpGc.takeWhile fun d => decide (d.expires ≤ now), d.expires ≤ now :=
      fun d hd => by simpa using List.mem_takeWhile_imp hd
    have horder := forall_mem_dropWhile_iff (fun d => decide (d.expires ≤ now)) s.dumpGc
    simp only [decide_eq_false_iff_not, decide_eq_true_eq] at horder
    rw [← horder]
    exact and_iff_left hdue
  all_goals exact Iff.rfl

/-- **When every copy is sent by the first run that finds it due**: exactly if no run finds a copy
that is due behind one that is not. -/
theorem timely_iff (env : KernelEnv) (es : List (UInt32 × NetEvent)) :
    Run.Along (clockedStep env) Timely netInit es ↔
      Run.Along (clockedStep env) InOrder netInit es := by
  have htrue : (fun _ : Net => True) netInit := trivial
  exact Run.along_congr htrue (fun _ _ _ _ _ => trivial) fun _ _ _ => timely_iff_inOrder

/-! ## Delays that are kept -/

/-- A copy that is queued has no deadline before those in the queue. -/
def QueuesLast (env : KernelEnv) (s : Net) : UInt32 × NetEvent → Prop
  | (now, .down _ _ skb) => ∀ delay, (nfNetworkDown (.of s.ctx) skb).2 = some delay →
      ∀ d ∈ s.dumpGc, d.expires ≤ now + env.msecsToJiffies delay
  | _ => True

/-- The queue is in the order of the deadlines. -/
def Sorted (s : Net) : Prop := s.dumpGc.Pairwise fun a b => a.expires ≤ b.expires

theorem sorted_netStep (h : Sorted s) (hlast : QueuesLast env s e) :
    Sorted (netStep env e.1 s e.2).1 := by
  obtain ⟨now, _ | _ | ⟨copied, alloc, skb⟩ | _ | _⟩ := e
  case down =>
    rw [netStep]
    split
    · rename_i iph delay hdown
      have hd := hlast delay (congrArg Prod.snd hdown)
      simp only [Sorted, sppDumperAlloc]
      split
      · exact h
      · split
        · exact h
        · split
          · exact h
          · refine List.pairwise_append.mpr ⟨h, List.pairwise_singleton _ _, fun a ha b hb => ?_⟩
            obtain rfl := List.mem_singleton.mp hb
            exact hd a ha
    · exact h
  case dumpWork =>
    show (sppDumpWorkCb (fun _ => now) 0 s.dumpGc s.ndumper).2.1.Pairwise _
    rw [(sppDumpWorkCb_const now 0 s.dumpGc s.ndumper).2]
    exact List.Pairwise.sublist (List.dropWhile_sublist _) h
  all_goals exact h

theorem inOrder_of_sorted (h : Sorted s) : InOrder s e := by
  obtain ⟨now, _ | _ | _ | _ | _⟩ := e
  case dumpWork => exact h.imp fun hle hdue => UInt32.le_trans hle hdue
  all_goals trivial

/-- **When the delays are kept**: as long as no copy is queued with a deadline before those in the
queue, no copy that is due ever stands behind one that is not. -/
theorem along_inOrder (hlast : Run.Along (clockedStep env) (QueuesLast env) netInit es) :
    Run.Along (clockedStep env) InOrder netInit es := by
  intro p e hp u hu
  have hempty : Sorted netInit := List.Pairwise.nil
  have hbefore := hlast.of_prefix ((List.prefix_append p [e]).trans hp)
  refine inOrder_of_sorted (Run.invariant hempty ?_ hbefore hu)
  intro v f w hv hf hw
  obtain rfl := Option.some.inj hw
  exact sorted_netStep hv hf

end Runs

/-- With a client at 192.168.1.10 and a server at 10.0.0.1, a packet is copied with a delay of 200
ticks. The delay is lowered to 10, and a packet is copied one tick later. When that copy is due the
worker runs. -/
def lowerDelay : List (UInt32 × NetEvent) :=
  let frame (data : List UInt8) : NetEvent := .netlink true (Nl.sppNetlinkSendMsg 7 ⟨0, [0, 0]⟩ data)
  let packet : NetEvent := .down true true
    (some ⟨0, true, ipprotoUdp, 0x0100000A, 0x0A01A8C0, 2000, 1000, 10, [1, 2]⟩)
  [(0, frame (Nl.sppCipAdd 0x0A01A8C0)), (0, frame (Nl.sppSipAdd 0x0100000A)),
    (0, frame (Nl.sppDupSet 0 200)), (0, packet), (0, frame (Nl.sppDupSet 0 10)), (1, packet),
    (11, .dumpWork)]

/-- The copy with the shorter delay is left in the queue. -/
theorem not_timely_lowerDelay :
    ¬ Run.Along (clockedStep ⟨fun _ _ => 0, 0, fun ms => ms.toUInt32⟩) Timely netInit
      lowerDelay := by
  decide +kernel

end Spp

end Tqos
