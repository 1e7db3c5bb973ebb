import Tqos.Lib.EdgeQueue
import Tqos.Tserver.Receive

/-!
# The event loop

`tq_server_start` waits for the two sockets and the timer and handles what `epoll_wait` reports, one
event after the other. The descriptors are registered with `EPOLLET`: they are reported when
something new has come, and not as long as there is something to read. For each report
`tq_ser_recv_req` reads one datagram.

The kernel keeps what is to be reported in a list, in which a descriptor is at most once. It is put
there when a datagram comes or the timer fires, and taken out when it is reported.

## Main results

* `eventLoop_serves` — the loop runs the server on the datagrams in the order in which they came, and
  answers those that are accepted
* `eventLoop_backlog` — the datagrams that wait while the loop is blocked are never fewer than
  before, and each one that came on top of an unreported one is one more
-/

namespace Tqos

open EdgeQueue

/-! ## The descriptors -/

/-- `fdis`: the descriptors whose `flag` is 0, and the one whose `flag` is 1. -/
inductive Fd
  | udp (i : Fin 2)
  | timerfd
deriving DecidableEq

/-- Descriptors, each of them once. -/
structure FdList where
  fds : List Fd
  nodup : fds.Nodup

namespace FdList

/-- No descriptor. -/
def nil : FdList := ⟨[], List.nodup_nil⟩

/-- A descriptor is put at the end, unless it is there. -/
def post (l : FdList) (k : Fd) : FdList :=
  if h : k ∈ l.fds then l else ⟨l.fds ++ [k], List.nodup_append.mpr ⟨l.nodup, List.nodup_singleton k,
    fun _ ha _ hb hab => h (List.mem_singleton.mp hb ▸ hab ▸ ha)⟩⟩

/-- Some of the descriptors. -/
def filter (l : FdList) (p : Fd → Bool) : FdList := ⟨l.fds.filter p, l.nodup.filter p⟩

/-- All but the first. -/
def tail (l : FdList) : FdList := ⟨l.fds.tail, l.nodup.tail⟩

theorem mem_post {l : FdList} {k k' : Fd} : k' ∈ (l.post k).fds ↔ k' ∈ l.fds ∨ k' = k := by
  rw [post]
  split
  · rename_i h
    exact ⟨Or.inl, fun hk => hk.elim id fun heq => heq ▸ h⟩
  · rw [List.mem_append, List.mem_singleton]

end FdList

/-! ## The loop -/

/-- A datagram that was read, what the handler met, and the reply if there is one. -/
structure Reading where
  socket : Fin 2
  datagram : Datagram
  env : Env
  reply : Option (List UInt8)

/-- The loop, with what the kernel keeps for it: the datagrams of each socket, how often the timer
has fired since it was read, what is to be reported, and what is reported and not handled yet. -/
structure Loop where
  server : Server
  queues : Fin 2 → List Datagram
  expirations : ℕ
  ready : FdList
  events : FdList
  readings : List Reading

/-- What the body of the loop meets. -/
structure Meets where
  /-- The environment of the handler of a request. -/
  env : Env
  /-- The byte in front of the content buffer. -/
  before : UInt8
  /-- What is left in the content buffer. -/
  ct : Ctt
  /-- What is left in `g_req`. -/
  req : Request
  /-- The second `time_update` reads. -/
  clock : ℕ
  /-- The environments of the timers that run. -/
  envs : List Env

/-- Something that happens. -/
inductive LoopEvent
  /-- A datagram is put into the queue of a socket. -/
  | arrive (i : Fin 2) (d : Datagram)
  /-- The timer fires. -/
  | fire
  /-- `epoll_wait` returns. -/
  | wait
  /-- The body of the loop, for the next event. -/
  | handle (m : Meets)

/-- There is something to read. -/
def readable (queues : Fin 2 → List Datagram) (expirations : ℕ) : Fd → Bool
  | .udp i => !(queues i).isEmpty
  | .timerfd => decide (0 < expirations)

/-- `expire_timers`, with an environment for each timer that runs. -/
def expireTimers (jc : JsonC) : List Env → Server → Option Server
  | [], s => if (takeDue s).isNone then some s else none
  | env :: envs, s =>
    if (takeDue s).isNone then some s else (step jc s (.expire env)).bind (expireTimers jc envs)

/-- One event. -/
def loopStep (jc : JsonC) (fd : Fin 2 → UInt32) (l : Loop) : LoopEvent → Option Loop
  | .arrive i d => some { l with
      queues := Function.update l.queues i (l.queues i ++ [d])
      ready := l.ready.post (.udp i) }
  | .fire => some { l with expirations := l.expirations + 1, ready := l.ready.post .timerfd }
  | .wait =>
    -- it is called when all events are handled, and blocks while there is nothing to report
    if l.events.fds = [] ∧ l.ready.fds ≠ [] then
      some { l with ready := .nil, events := l.ready.filter (readable l.queues l.expirations) }
    else none
  | .handle m =>
    match l.events.fds with
    | [] => none
    | .udp i :: _ =>
      match l.queues i with
      -- `EAGAIN`
      | [] => some { l with events := l.events.tail }
      | d :: ds =>
        match (tqSerRecvReq jc m.env m.before (fd i) d m.ct m.req l.server).res with
        | .error _ => none
        | .ok r => some { l with
            server := r.1
            queues := Function.update l.queues i ds
            events := l.events.tail
            readings := l.readings ++ [⟨i, d, m.env, r.2⟩] }
    | .timerfd :: _ =>
      if l.expirations = 0 then some { l with events := l.events.tail }
      else
        (expireTimers jc m.envs { l.server with currentMsec := m.clock }).map fun s =>
          { l with server := s, expirations := 0, events := l.events.tail }

/-- After `server_init`; datagrams that come to a bound socket before it is registered are reported
when it is. -/
def loopInit (nvram : Nvram) (early : Fin 2 → List Datagram) : Loop where
  server := serverInit nvram
  queues := early
  expirations := 0
  ready := FdList.filter ⟨[.udp 0, .udp 1, .timerfd], by decide⟩ (readable early 0)
  events := .nil
  readings := []

/-- The loop is blocked in `epoll_wait`. -/
def Loop.Blocked (l : Loop) : Prop := l.events.fds = [] ∧ l.ready.fds = []

/-! ## The datagrams -/

/-- The request that a datagram is, for the server. -/
def Reading.request (jc : JsonC) (s : Reading) : Event :=
  .request s.datagram.mType s.datagram.cip
    (jc.tokenerParse (textOf (decrypted s.datagram.content))) s.env

/-- Whether the event is a request. -/
def Event.isRequest : Event → Bool
  | .request _ _ _ _ => true
  | _ => false

/-- The requests of what was read. -/
def requestsOf (jc : JsonC) (readings : List Reading) : List Event :=
  (readings.filter fun s => decide s.datagram.Accepted).map (Reading.request jc)

/-- The datagrams read from a socket. -/
def Loop.readFrom (l : Loop) (i : Fin 2) : List Datagram :=
  (l.readings.filter fun s => decide (s.socket = i)).map Reading.datagram

/-- The datagram that comes to a socket. -/
def LoopEvent.arrival (i : Fin 2) : LoopEvent → Option Datagram
  | .arrive j d => if j = i then some d else none
  | _ => none

/-- The loop, seen from a socket. -/
def Loop.edge (i : Fin 2) (l : Loop) : EdgeQueue Datagram :=
  ⟨l.queues i, decide (.udp i ∈ l.ready.fds), decide (.udp i ∈ l.events.fds)⟩

/-- An event, seen from a socket. -/
def Loop.seen (i : Fin 2) (l : Loop) : LoopEvent → Option (EdgeEvent Datagram)
  | .arrive j d => if j = i then some (.arrive d) else none
  | .fire => none
  | .wait => some .tell
  | .handle _ => if l.events.fds.head? = some (.udp i) then some .take else none

section Steps

variable {jc : JsonC} {fd : Fin 2 → UInt32} {l l' : Loop} {m : Meets} {e : LoopEvent} {i : Fin 2}

/-- What the body of the loop does. -/
inductive Handled (jc : JsonC) (fd : Fin 2 → UInt32) (l : Loop) (m : Meets) : Loop → Prop
  | again (i : Fin 2) (ks : List Fd) (hfds : l.events.fds = .udp i :: ks) (hq : l.queues i = []) :
    Handled jc fd l m { l with events := l.events.tail }
  | read (i : Fin 2) (ks : List Fd) (hfds : l.events.fds = .udp i :: ks) (d : Datagram)
      (ds : List Datagram) (hq : l.queues i = d :: ds) (r : Server × Option (List UInt8))
      (hr : (tqSerRecvReq jc m.env m.before (fd i) d m.ct m.req l.server).res = .ok r) :
    Handled jc fd l m { l with
      server := r.1
      queues := Function.update l.queues i ds
      events := l.events.tail
      readings := l.readings ++ [⟨i, d, m.env, r.2⟩] }
  | idle (ks : List Fd) (hfds : l.events.fds = .timerfd :: ks) :
    Handled jc fd l m { l with events := l.events.tail }
  | expire (ks : List Fd) (hfds : l.events.fds = .timerfd :: ks) (s : Server)
      (hs : expireTimers jc m.envs { l.server with currentMsec := m.clock } = some s) :
    Handled jc fd l m { l with server := s, expirations := 0, events := l.events.tail }

theorem handled_of_step (h : loopStep jc fd l (.handle m) = some l') : Handled jc fd l m l' := by
  simp only [loopStep] at h
  split at h
  · cases h
  · rename_i i ks hfds
    split at h
    · rename_i hq
      obtain rfl := Option.some.inj h
      exact .again i ks hfds hq
    · rename_i d ds hq
      split at h
      · cases h
      · rename_i r hr
        obtain rfl := Option.some.inj h
        exact .read i ks hfds d ds hq r hr
  · rename_i ks hfds
    split at h
    · obtain rfl := Option.some.inj h
      exact .idle ks hfds
    · obtain ⟨s, hs, rfl⟩ := Option.map_eq_some_iff.mp h
      exact .expire ks hfds s hs

/-- An event that is handled is not among the others. -/
theorem FdList.mem_tail {ls : FdList} {k k' : Fd} {ks : List Fd} (h : ls.fds = k :: ks) :
    k' ∈ ls.tail.fds ↔ k' ∈ ls.fds ∧ k' ≠ k := by
  have hnodup := ls.nodup
  rw [h, List.nodup_cons] at hnodup
  have htail : ls.tail.fds = ks := by
    rw [FdList.tail]
    exact congrArg List.tail h
  rw [htail, h, List.mem_cons]
  constructor
  · intro hmem
    exact ⟨Or.inr hmem, fun heq => hnodup.1 (heq ▸ hmem)⟩
  · rintro ⟨heq | hmem, hne⟩
    · exact absurd heq hne
    · exact hmem

theorem mem_tail_udp {k : Fd} {ks : List Fd} (h : l.events.fds = k :: ks) (hne : k ≠ .udp i) :
    decide (.udp i ∈ l.events.tail.fds) = decide (.udp i ∈ l.events.fds) := by
  rw [decide_eq_decide, FdList.mem_tail h]
  exact and_iff_left (Ne.symm hne)

/-- **The loop watches its sockets**: each of them is a queue that is read on edges. -/
theorem watched_edge (jc : JsonC) (fd : Fin 2 → UInt32) (i : Fin 2) :
    Watched (loopStep jc fd) (Loop.edge i) (Loop.seen i) := by
  intro l e l' h
  cases e with
  | arrive j d =>
    obtain rfl := Option.some.inj h
    by_cases hj : j = i
    · subst hj
      refine Or.inr ⟨.arrive d, if_pos rfl, ?_⟩
      simp [EdgeQueue.step, Loop.edge, FdList.mem_post]
    · refine Or.inl ⟨if_neg hj, ?_⟩
      have hne : Fd.udp i ≠ .udp j := fun heq => hj (Fd.udp.inj heq).symm
      simp [Loop.edge, FdList.mem_post, Function.update_of_ne (Ne.symm hj), hne]
  | fire =>
    obtain rfl := Option.some.inj h
    exact Or.inl ⟨rfl, by simp [Loop.edge, FdList.mem_post]⟩
  | wait =>
    simp only [loopStep] at h
    split at h
    · rename_i hblocked
      obtain rfl := Option.some.inj h
      refine Or.inr ⟨.tell, rfl, ?_⟩
      cases hq : l.queues i <;>
        simp [EdgeQueue.step, Loop.edge, hblocked.1, FdList.filter, FdList.nil, readable, hq]
    · cases h
  | handle m =>
    cases handled_of_step h with
    | again j ks hfds hq =>
      by_cases hj : j = i
      · subst hj
        refine Or.inr ⟨.take, by simp [Loop.seen, hfds], ?_⟩
        simp [EdgeQueue.step, Loop.edge, FdList.mem_tail hfds, hfds, hq]
      · have hne : Fd.udp j ≠ .udp i := fun heq => hj (Fd.udp.inj heq)
        refine Or.inl ⟨by simp [Loop.seen, hfds, hj], ?_⟩
        rw [Loop.edge, Loop.edge, mem_tail_udp hfds hne]
    | read j ks hfds d ds hq r hr =>
      by_cases hj : j = i
      · subst hj
        refine Or.inr ⟨.take, by simp [Loop.seen, hfds], ?_⟩
        simp [EdgeQueue.step, Loop.edge, FdList.mem_tail hfds, hfds, hq]
      · have hne : Fd.udp j ≠ .udp i := fun heq => hj (Fd.udp.inj heq)
        refine Or.inl ⟨by simp [Loop.seen, hfds, hj], ?_⟩
        rw [Loop.edge, Loop.edge, mem_tail_udp hfds hne]
        simp [Function.update_of_ne (Ne.symm hj)]
    | idle ks hfds =>
      refine Or.inl ⟨by simp [Loop.seen, hfds], ?_⟩
      rw [Loop.edge, Loop.edge, mem_tail_udp hfds (by simp)]
    | expire ks hfds s hs =>
      refine Or.inl ⟨by simp [Loop.seen, hfds], ?_⟩
      rw [Loop.edge, Loop.edge, mem_tail_udp hfds (by simp)]

/-! ## What the server is run on -/

/-- A datagram that does not have what it says it has is not answered. -/
theorem res_tqSerRecvReq_refused {env : Env} {before : UInt8} {n : UInt32} {d : Datagram} {ct : Ctt}
    {req : Request} {s : Server} (h : ¬ d.Accepted) :
    (tqSerRecvReq jc env before n d ct req s).res = .ok (s, none) := by
  have hrecv : (recvMsg n d req).res = .ok none := by rw [recvMsg_eq, if_neg h]
  rw [tqSerRecvReq, Traced.res_bind_of_ok hrecv]
  rfl

/-- **A datagram** is a request that is answered, or it is dropped. -/
theorem run_of_tqSerRecvReq {env : Env} {before : UInt8} {n : UInt32} {d : Datagram} {ct : Ctt}
    {req : Request} {s : Server} {r : Server × Option (List UInt8)}
    (hr : (tqSerRecvReq jc env before n d ct req s).res = .ok r) :
    (r.2.isSome = true ↔ d.Accepted) ∧
      Run.run (step jc) s (requestsOf jc [⟨i, d, env, r.2⟩]) = some r.1 := by
  by_cases hacc : d.Accepted
  · have hlive : ¬ KilledByDecryption before d.mContLen := by
      intro hkill
      rw [res_tqSerRecvReq_killed hacc hkill] at hr
      cases hr
    have hsome : ∃ sent, r.2 = some sent := by
      rw [res_tqSerRecvReq hacc hlive] at hr
      obtain ⟨t, -, hr⟩ := Traced.res_bind_eq_ok.mp hr
      obtain ⟨sent, -, hr⟩ := Traced.res_bind_eq_ok.mp hr
      exact ⟨sent, (congrArg Prod.snd (Except.ok.inj hr)).symm⟩
    obtain ⟨sent, hsent⟩ := hsome
    obtain ⟨s', reply⟩ := r
    obtain rfl : reply = some sent := hsent
    refine ⟨iff_of_true rfl hacc, ?_⟩
    rw [requestsOf, List.filter_cons_of_pos (by simpa using hacc)]
    simp [Reading.request, step_of_tqSerRecvReq hacc hr]
  · obtain rfl := Except.ok.inj (hr.symm.trans (res_tqSerRecvReq_refused hacc))
    refine ⟨iff_of_false (by simp) hacc, ?_⟩
    rw [requestsOf, List.filter_cons_of_neg (by simpa using hacc)]
    rfl

/-- The timers that run are events of the server. -/
theorem exists_run_expireTimers {envs : List Env} {s s' : Server}
    (h : expireTimers jc envs s = some s') :
    ∃ fs, Run.run (step jc) s fs = some s' ∧ fs.filter Event.isRequest = [] := by
  induction envs generalizing s with
  | nil =>
    rw [expireTimers, Option.ite_none_right_eq_some] at h
    obtain rfl := Option.some.inj h.2
    exact ⟨[], rfl, rfl⟩
  | cons env envs ih =>
    rw [expireTimers] at h
    split at h
    · obtain rfl := Option.some.inj h
      exact ⟨[], rfl, rfl⟩
    · obtain ⟨u, hu, h⟩ := Option.bind_eq_some_iff.mp h
      obtain ⟨fs, hrun, hfs⟩ := ih h
      refine ⟨.expire env :: fs, ?_, hfs⟩
      rw [Run.run_cons, hu]
      exact hrun

/-- What the loop has done, for the events so far. -/
structure Serves (jc : JsonC) (nvram : Nvram) (early : Fin 2 → List Datagram) (es : List LoopEvent)
    (l : Loop) : Prop where
  /-- The server was run on the requests that were read, in the order in which they were. -/
  server : ∃ fs, Run.run (step jc) (serverInit nvram) fs = some l.server ∧
    fs.filter Event.isRequest = requestsOf jc l.readings
  /-- What was accepted is answered. -/
  reply : ∀ r ∈ l.readings, r.reply.isSome = true ↔ r.datagram.Accepted
  /-- What was read and what waits is what came. -/
  fifo : ∀ i, l.readFrom i ++ l.queues i = early i ++ es.filterMap (LoopEvent.arrival i)

variable {nvram : Nvram} {early : Fin 2 → List Datagram} {es fs : List LoopEvent}

theorem serves_init : Serves jc nvram early [] (loopInit nvram early) where
  server := ⟨[], rfl, rfl⟩
  reply := fun _ hr => absurd hr List.not_mem_nil
  fifo := fun i => (List.append_nil (early i)).symm

theorem filter_isRequest_requestsOf (readings : List Reading) :
    (requestsOf jc readings).filter Event.isRequest = requestsOf jc readings := by
  rw [List.filter_eq_self]
  intro e he
  obtain ⟨r, -, rfl⟩ := List.mem_map.mp he
  rfl

theorem filterMap_arrival_concat (h : e.arrival i = none) :
    (es ++ [e]).filterMap (LoopEvent.arrival i) = es.filterMap (LoopEvent.arrival i) := by
  rw [List.filterMap_append, List.filterMap_cons_none h, List.filterMap_nil, List.append_nil]

/-- **The step lemma.** -/
theorem Serves.step (h : Serves jc nvram early es l) (hstep : loopStep jc fd l e = some l') :
    Serves jc nvram early (es ++ [e]) l' := by
  obtain ⟨gs, hrun, hgs⟩ := h.server
  cases e with
  | arrive j d =>
    obtain rfl := Option.some.inj hstep
    refine ⟨⟨gs, hrun, hgs⟩, h.reply, fun i => ?_⟩
    rw [List.filterMap_append, ← List.append_assoc, ← h.fifo i]
    by_cases hj : j = i
    · subst hj
      simp [Loop.readFrom, LoopEvent.arrival]
    · simp [Loop.readFrom, LoopEvent.arrival, hj, Function.update_of_ne (Ne.symm hj)]
  | fire =>
    obtain rfl := Option.some.inj hstep
    exact ⟨⟨gs, hrun, hgs⟩, h.reply, fun i =>
      (h.fifo i).trans (by rw [filterMap_arrival_concat rfl])⟩
  | wait =>
    rw [loopStep, Option.ite_none_right_eq_some] at hstep
    obtain ⟨-, hstep⟩ := hstep
    obtain rfl := Option.some.inj hstep
    exact ⟨⟨gs, hrun, hgs⟩, h.reply, fun i =>
      (h.fifo i).trans (by rw [filterMap_arrival_concat rfl])⟩
  | handle m =>
    cases handled_of_step hstep with
    | again j ks hfds hq =>
      exact ⟨⟨gs, hrun, hgs⟩, h.reply, fun i =>
        (h.fifo i).trans (by rw [filterMap_arrival_concat rfl])⟩
    | read j ks hfds d ds hq r hr =>
      obtain ⟨hreply, hserved⟩ := run_of_tqSerRecvReq (i := j) hr
      refine ⟨⟨gs ++ requestsOf jc [⟨j, d, m.env, r.2⟩], ?_, ?_⟩, fun r' hr' => ?_, fun i => ?_⟩
      · rw [Run.run_append, hrun]
        exact hserved
      · rw [List.filter_append, hgs, filter_isRequest_requestsOf]
        simp only [requestsOf, List.filter_append, List.map_append]
      · rcases List.mem_append.mp hr' with hr' | hr'
        · exact h.reply r' hr'
        · obtain rfl := List.mem_singleton.mp hr'
          exact hreply
      · rw [filterMap_arrival_concat rfl, ← h.fifo i]
        by_cases hj : j = i
        · subst hj
          simp [Loop.readFrom, hq]
        · simp [Loop.readFrom, hj, Function.update_of_ne (Ne.symm hj)]
    | idle ks hfds =>
      exact ⟨⟨gs, hrun, hgs⟩, h.reply, fun i =>
        (h.fifo i).trans (by rw [filterMap_arrival_concat rfl])⟩
    | expire ks hfds s hs =>
      obtain ⟨hs', hrun', hnone⟩ := exists_run_expireTimers hs
      refine ⟨⟨gs ++ .tick m.clock :: hs', ?_, ?_⟩, h.reply, fun i =>
        (h.fifo i).trans (by rw [filterMap_arrival_concat rfl])⟩
      · rw [Run.run_append, hrun]
        exact hrun'
      · rw [List.filter_append, hgs, List.filter_cons_of_neg (by simp [Event.isRequest]), hnone,
          List.append_nil]

theorem serves_run (h : Run.run (loopStep jc fd) (loopInit nvram early) es = some l) :
    Serves jc nvram early es l := by
  induction es using List.reverseRecOn generalizing l with
  | nil =>
    obtain rfl := Option.some.inj h
    exact serves_init
  | append_singleton es e ih =>
    obtain ⟨u, hu, hul⟩ := Run.run_concat_eq_some.mp h
    exact (ih hu).step hul

/-- **The loop runs the server.** Whatever comes and whenever it comes, the server is run on the
accepted datagrams that were read, each of them once and in the order in which they were read; these
are answered and the others are not. What was read from a socket, and what waits, is what has come
to it, in that order. -/
theorem eventLoop_serves (jc : JsonC) (fd : Fin 2 → UInt32) (nvram : Nvram)
    (early : Fin 2 → List Datagram) (es : List LoopEvent) (l : Loop)
    (h : Run.run (loopStep jc fd) (loopInit nvram early) es = some l) :
    Serves jc nvram early es l :=
  serves_run h

/-! ## What waits -/

theorem covered_init (i : Fin 2) : ((loopInit nvram early).edge i).Covered := by
  rw [Covered, edges]
  cases hq : early i with
  | nil => simp [Loop.edge, loopInit, FdList.nil, FdList.filter, readable, hq]
  | cons d ds =>
    have hle (b : Bool) : b.toNat ≤ ds.length + 1 := b.toNat_le.trans (Nat.le_add_left 1 _)
    simpa [Loop.edge, loopInit, FdList.nil, FdList.filter, readable, hq] using hle _

/-- A datagram comes to a socket that is to be reported already. -/
def Loop.overtaken (i : Fin 2) (l : Loop) (e : LoopEvent) : Bool :=
  (e.arrival i).isSome && decide (.udp i ∈ l.ready.fds)

theorem overtakesIn_edge (i : Fin 2) :
    overtakesIn (Loop.edge i) (Loop.seen i) = Loop.overtaken i := by
  funext l e
  cases e with
  | arrive j d =>
    by_cases hj : j = i <;>
      simp [overtakesIn, Loop.seen, Loop.overtaken, LoopEvent.arrival, overtakes, Loop.edge, hj]
  | fire => rfl
  | wait => rfl
  | handle m =>
    rw [overtakesIn, Loop.seen]
    split <;> rfl

theorem lag_of_blocked (h : l.Blocked) (i : Fin 2) : (l.edge i).lag = (l.queues i).length := by
  simp [lag, edges, Loop.edge, h.1, h.2]

/-- The backlog, counted. -/
theorem length_queues_of_blocked (hl : Run.run (loopStep jc fd) (loopInit nvram early) es = some l)
    (hl' : Run.run (loopStep jc fd) l fs = some l') (hb : l.Blocked) (hb' : l'.Blocked)
    (i : Fin 2) : (l'.queues i).length =
      (l.queues i).length + Run.countAlong (loopStep jc fd) (Loop.overtaken i) l fs := by
  have hw := watched_edge jc fd i
  obtain ⟨hcov, -⟩ := hw.lag_run (covered_init i) hl
  obtain ⟨-, hlag⟩ := hw.lag_run hcov hl'
  rw [lag_of_blocked hb', lag_of_blocked hb, overtakesIn_edge] at hlag
  exact hlag

/-- While nothing comes to a socket, nothing is read from it. -/
theorem readFrom_of_blocked (hl : Run.run (loopStep jc fd) (loopInit nvram early) es = some l)
    (hl' : Run.run (loopStep jc fd) l fs = some l') (hb : l.Blocked) (hb' : l'.Blocked) {i : Fin 2}
    (hnone : ∀ e ∈ fs, e.arrival i = none) :
    l'.readFrom i = l.readFrom i ∧ l'.queues i = l.queues i := by
  have hlen := length_queues_of_blocked hl hl' hb hb' i
  rw [Run.countAlong_eq_zero fun e he u => by rw [Loop.overtaken, hnone e he]; rfl] at hlen
  have hrun : Run.run (loopStep jc fd) (loopInit nvram early) (es ++ fs) = some l' := by
    rw [Run.run_append, hl]
    exact hl'
  have hall : l'.readFrom i ++ l'.queues i = l.readFrom i ++ l.queues i := by
    rw [(serves_run hrun).fifo i, (serves_run hl).fifo i, List.filterMap_append,
      List.filterMap_eq_nil_iff.mpr hnone, List.append_nil]
  exact List.append_inj' hall hlen

/-- **The backlog.** From one moment when the loop is blocked to a later one, the datagrams that
wait at a socket are as many more as have come while the socket was to be reported already. So they
are never fewer. One that waits while the loop is blocked is not read until the next one comes,
which then waits in its place. -/
theorem eventLoop_backlog (jc : JsonC) (fd : Fin 2 → UInt32) (nvram : Nvram)
    (early : Fin 2 → List Datagram) (es fs : List LoopEvent) (l l' : Loop)
    (hl : Run.run (loopStep jc fd) (loopInit nvram early) es = some l)
    (hl' : Run.run (loopStep jc fd) l fs = some l') (hb : l.Blocked) (hb' : l'.Blocked)
    (i : Fin 2) :
    (l'.queues i).length =
        (l.queues i).length + Run.countAlong (loopStep jc fd) (Loop.overtaken i) l fs ∧
      ((∀ e ∈ fs, e.arrival i = none) →
        l'.readFrom i = l.readFrom i ∧ l'.queues i = l.queues i) :=
  ⟨length_queues_of_blocked hl hl' hb hb' i, readFrom_of_blocked hl hl' hb hb'⟩

/-! ## Two datagrams at once -/

/-- A request of a type that is not known is answered, and changes nothing. -/
theorem res_tqSerRecvReq_undef (env : Env) (before : UInt8) (n : UInt32) (ct : Ctt) (req : Request)
    (s : Server) : ∃ sent, (tqSerRecvReq .emptyOnly env before n (shortDatagram 2000) ct req s).res =
      .ok (s, some sent) := by
  have hacc : (shortDatagram 2000).Accepted := by decide
  have hlive : ¬ KilledByDecryption before (shortDatagram 2000).mContLen :=
    fun hkill => absurd hkill.1 (by decide)
  have htype : (shortDatagram 2000).mType = 2000 := by decide
  rw [res_tqSerRecvReq hacc hlive, htype]
  exact ⟨_, rfl⟩

/-- What the loop meets when it is run by itself. -/
def plainMeets : Meets := ⟨Env.at 0 none, 0, ⟨0, Vector.replicate _ 0⟩, Vector.replicate _ 0, 0, []⟩

/-- The first socket is reported, and a datagram is read from it. -/
theorem exists_run_report (fd : Fin 2 → UInt32) {d : Datagram} {ds : List Datagram}
    {r : Server × Option (List UInt8)} (hfds : l.events.fds = [])
    (hready : l.ready.fds = [.udp 0]) (hq : l.queues 0 = d :: ds)
    (hr : (tqSerRecvReq jc m.env m.before (fd 0) d m.ct m.req l.server).res = .ok r) :
    ∃ l', Run.run (loopStep jc fd) l [.wait, .handle m] = some l' ∧ l'.Blocked ∧
      l'.queues 0 = ds := by
  have hreport : (l.ready.filter (readable l.queues l.expirations)).fds = [.udp 0] := by
    simp [FdList.filter, hready, readable, hq]
  refine ⟨⟨r.1, Function.update l.queues 0 ds, l.expirations, .nil,
    (l.ready.filter (readable l.queues l.expirations)).tail,
    l.readings ++ [⟨0, d, m.env, r.2⟩]⟩, ?_, ⟨congrArg List.tail hreport, rfl⟩,
    Function.update_self 0 ds l.queues⟩
  simp [loopStep, hfds, hready, hreport, hq, hr]

/-- Two datagrams have come to the first socket before it is registered. -/
def earlyPair (i : Fin 2) : List Datagram :=
  if i = 0 then [shortDatagram 2000, shortDatagram 2000] else []

theorem exists_run_earlyPair (fd : Fin 2 → UInt32) (nvram : Nvram) : ∃ l,
    Run.run (loopStep .emptyOnly fd) (loopInit nvram earlyPair) [.wait, .handle plainMeets] =
      some l ∧ l.Blocked ∧ l.queues 0 = [shortDatagram 2000] := by
  obtain ⟨_, hr⟩ := res_tqSerRecvReq_undef plainMeets.env plainMeets.before (fd 0) plainMeets.ct
    plainMeets.req (serverInit nvram)
  exact exists_run_report fd (l := loopInit nvram earlyPair) rfl rfl rfl hr

theorem eventLoop_serves_earlyPair : ∃ l,
    Run.run (loopStep .emptyOnly fun _ => 3) (loopInit ⟨['0'], []⟩ earlyPair)
      [.wait, .handle plainMeets] = some l ∧
      Serves .emptyOnly ⟨['0'], []⟩ earlyPair [.wait, .handle plainMeets] l := by
  obtain ⟨l, hl, -, -⟩ := exists_run_earlyPair (fun _ => 3) ⟨['0'], []⟩
  exact ⟨l, hl, eventLoop_serves .emptyOnly (fun _ => 3) ⟨['0'], []⟩ earlyPair _ l hl⟩

/-- Two more come before the loop is told. The second one that came is read, and two wait. -/
theorem eventLoop_backlog_earlyPair :
    let gs := [.arrive 0 (shortDatagram 2000), .arrive 0 (shortDatagram 2000), .wait,
      .handle plainMeets]
    ∃ l l', Run.run (loopStep .emptyOnly fun _ => 3) (loopInit ⟨['0'], []⟩ earlyPair)
        [.wait, .handle plainMeets] = some l ∧
      Run.run (loopStep .emptyOnly fun _ => 3) l gs = some l' ∧ l.Blocked ∧ l'.Blocked ∧
      (l.queues 0).length = 1 ∧ (l'.queues 0).length = 2 ∧
      ((l'.queues 0).length = (l.queues 0).length +
          Run.countAlong (loopStep .emptyOnly fun _ => 3) (Loop.overtaken 0) l gs ∧
        ((∀ e ∈ gs, e.arrival 0 = none) →
          l'.readFrom 0 = l.readFrom 0 ∧ l'.queues 0 = l.queues 0)) := by
  intro gs
  obtain ⟨l, hl, hb, hq⟩ := exists_run_earlyPair (fun _ => 3) ⟨['0'], []⟩
  have hpost : ((l.ready.post (.udp 0)).post (.udp 0)).fds = [.udp 0] := by
    simp [FdList.post, hb.2]
  set queues := Function.update l.queues 0 (l.queues 0 ++ [shortDatagram 2000]) with hqueues
  have hqueue : Function.update queues 0 (queues 0 ++ [shortDatagram 2000]) 0 =
      [shortDatagram 2000, shortDatagram 2000, shortDatagram 2000] := by
    rw [Function.update_self, hqueues, Function.update_self, hq]
    rfl
  obtain ⟨_, hr⟩ := res_tqSerRecvReq_undef plainMeets.env plainMeets.before 3 plainMeets.ct
    plainMeets.req l.server
  obtain ⟨l', hl', hb', hq'⟩ := exists_run_report (fun _ => 3)
    (l := { l with
      queues := Function.update queues 0 (queues 0 ++ [shortDatagram 2000])
      ready := (l.ready.post (.udp 0)).post (.udp 0) }) hb.1 hpost hqueue hr
  have hlater : Run.run (loopStep .emptyOnly fun _ => 3) l gs = some l' := hl'
  exact ⟨l, l', hl, hlater, hb, hb', congrArg List.length hq, congrArg List.length hq',
    eventLoop_backlog .emptyOnly (fun _ => 3) ⟨['0'], []⟩ earlyPair _ _ l l' hl hlater hb hb' 0⟩

end Steps

end Tqos
