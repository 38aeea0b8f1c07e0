import NetDemo.Libhv.EventLoopThreadPool
import NetDemo.Libhv.TcpServer.ConnectionNum
import Mathlib.Algebra.Order.Ring.Nat

/-!
This module contains the server of libhv with the load balancing of its `EventLoopThreadPool`, and how
evenly the accepted connections are spread over the worker loops. `nextLoop` reads the counters of all
loops in one step.
-/

namespace Libhv

structure BalancedServer where
  server : TcpServer
  nextLoopIdx : Nat

def TcpServerEvent.isClose (e : TcpServerEvent) : Bool :=
  match e with
  | .onClose _ => true
  | _ => false

namespace TcpServer

open Transition ListUpdate

-- The numbers that `LB_LeastConnections` compares.
def loads (s : TcpServer) : List Nat :=
  s.workers.map fun worker => worker.connectionNum.toNat

def loops (s : TcpServer) : List Nat :=
  s.ios.map Connio.loop

theorem loads_setWorker {s : TcpServer} {w : Nat} {worker worker' : Worker}
    (hw : s.workers[w]? = some worker) (hnum : worker'.connectionNum = worker.connectionNum)
    : (s.workers.set w worker').map (fun worker => worker.connectionNum.toNat) = s.loads := by
  apply map_set_eq hw
  rw [hnum]

/--
What an event does to the number of workers and to the loops of the accepted ios.
-/
theorem Steps.loops_eq {s t : TcpServer} {e : TcpServerEvent} (h : Steps s e t)
    : t.workers.length = s.workers.length ∧
        ((∃ fd w, e = .onAccept fd w ∧ t.loops = s.loops ++ [w]) ∨
          ((∀ fd w, e ≠ .onAccept fd w) ∧ t.loops = s.loops)) := by
  cases h with
  | accepted fd w worker hfd hw =>
    constructor
    . simp
    . exact .inl ⟨fd, w, rfl, by simp [loops]⟩
  | refused w num k customEvents io hw hfree hmax hk hio =>
    constructor
    . simp
    . exact .inr ⟨by simp, map_set_eq hk rfl⟩
  | added w num k customEvents io hw hfree hk hio =>
    constructor
    . simp
    . exact .inr ⟨by simp, map_set_eq hk rfl⟩
  | closed w num k customEvents io channel hw hk hio hchannel =>
    constructor
    . simp
    . exact .inr ⟨by simp, map_set_eq hk rfl⟩
  | released k io hk hio => exact ⟨rfl, .inr ⟨by simp, map_set_eq hk rfl⟩⟩
  | wrote data k rest io channel hnext hk hchannel =>
    exact ⟨rfl, .inr ⟨by simp, map_set_eq hk rfl⟩⟩
  | _ =>
    constructor
    . simp
    . exact .inr ⟨by simp, rfl⟩

theorem Counts.toNat_eq {s : TcpServer} (hs : s.Counts) (hmax : s.ios.length < 2 ^ 32) {w : Nat}
    {worker : Worker} (hw : s.workers[w]? = some worker)
    : worker.connectionNum.toNat = countedNum s.ios w := by
  have hle : countedNum s.ios w ≤ s.ios.length := List.countP_le_length
  rw [hs.eq w worker hw, UInt32.toNat_ofNat']
  exact Nat.mod_eq_of_lt (hle.trans_lt hmax)

theorem loads_getElem? {s : TcpServer} {w : Nat} {worker : Worker} (hw : s.workers[w]? = some worker)
    : s.loads[w]? = some worker.connectionNum.toNat := by
  simp [loads, hw]

theorem loads_accepted {s : TcpServer} (hs : s.Counts) (hmax : s.ios.length < 2 ^ 32 - 1) {w : Nat}
    {worker : Worker} (hw : s.workers[w]? = some worker) (customEvents : List IoRef) (doing : Doing)
    : (s.workers.set w ⟨worker.connectionNum + 1, customEvents, doing⟩).map
          (fun worker => worker.connectionNum.toNat) =
        s.loads.set w (worker.connectionNum.toNat + 1) := by
  have hle : countedNum s.ios w ≤ s.ios.length := List.countP_le_length
  have hnum := hs.toNat_eq (by omega) hw
  have hadd : (worker.connectionNum + 1).toNat = worker.connectionNum.toNat + 1 := by
    rw [UInt32.toNat_add, UInt32.toNat_one]
    exact Nat.mod_eq_of_lt (by omega)
  rw [List.map_set, hadd]
  rfl

theorem loads_closed {s : TcpServer} (hs : s.Counts) (hmax : s.ios.length < 2 ^ 32) {w : Nat}
    {num : UInt32} {customEvents : List IoRef} {k : IoRef} {io : Connio}
    (hw : s.workers[w]? = some ⟨num, customEvents, .idle⟩) (hk : s.ios[k]? = some io)
    (hio : io.state = ⟨w, true, true⟩)
    : ∃ x, s.loads[w]? = some (x + 1) ∧
        (s.workers.set w ⟨num - 1, customEvents, .closing k⟩).map
            (fun worker => worker.connectionNum.toNat) =
          s.loads.set w x := by
  have hnum := hs.toNat_eq hmax hw
  have hpos : 0 < countedNum s.ios w := by
    unfold countedNum
    rw [List.countP_pos_iff]
    exact ⟨io, List.mem_of_getElem? hk, by simp [hio, IoState.counted]⟩
  simp only at hnum
  have hle : (1 : UInt32) ≤ num := by
    rw [UInt32.le_iff_toNat_le, UInt32.toNat_one]
    omega
  refine ⟨num.toNat - 1, ?_, ?_⟩
  . rw [loads_getElem? hw, Nat.sub_add_cancel (by omega)]
  . rw [List.map_set, UInt32.toNat_sub_of_le _ _ hle]
    rfl

theorem Steps.loads_eq {s t : TcpServer} {e : TcpServerEvent} (h : Steps s e t)
    (haccept : ∀ fd w, e ≠ .onAccept fd w) (hclose : ∀ k, e ≠ .onClose k)
    : t.ios.length = s.ios.length ∧ t.loads = s.loads := by
  cases h with
  | accepted fd w worker hfd hw => exact absurd rfl (haccept fd w)
  | closed w num k customEvents io channel hw hk hio hchannel => exact absurd rfl (hclose k)
  | refused w num k customEvents io hw hfree hmax hk hio =>
    exact ⟨by simp, loads_setWorker hw rfl⟩
  | checked w num k customEvents hw hfree hmax => exact ⟨by simp, loads_setWorker hw rfl⟩
  | added w num k customEvents io hw hfree hk hio => exact ⟨by simp, loads_setWorker hw rfl⟩
  | connected w num k customEvents io hw hk hio => exact ⟨by simp, loads_setWorker hw rfl⟩
  | disconnected w num k customEvents io hw hk hio => exact ⟨by simp, loads_setWorker hw rfl⟩
  | removed w num k customEvents hw hfree => exact ⟨by simp, loads_setWorker hw rfl⟩
  | _ => exact ⟨by simp, rfl⟩

/--
What an event does to the loads, as long as no counter has wrapped around.
-/
theorem Steps.loads_cases {s t : TcpServer} {e : TcpServerEvent} (hs : s.Counts) (h : Steps s e t)
    (hmax : t.ios.length < 2 ^ 32)
    : s.ios.length ≤ t.ios.length ∧
        ((∃ fd w x, e = .onAccept fd w ∧ t.ios.length = s.ios.length + 1 ∧
            s.loads[w]? = some x ∧ t.loads = s.loads.set w (x + 1)) ∨
          (∃ k w x, e = .onClose k ∧ t.ios.length = s.ios.length ∧
            s.loads[w]? = some (x + 1) ∧ t.loads = s.loads.set w x) ∨
          ((∀ fd w, e ≠ .onAccept fd w) ∧ (∀ k, e ≠ .onClose k) ∧ t.ios.length = s.ios.length ∧
            t.loads = s.loads)) := by
  have hother := h.loads_eq
  cases h with
  | accepted fd w worker hfd hw =>
    simp only [List.length_append, List.length_singleton] at hmax
    constructor
    . simp
    . apply Or.inl
      refine ⟨fd, w, _, rfl, by simp, loads_getElem? hw, ?_⟩
      apply loads_accepted hs (by omega) hw
  | closed w num k customEvents io channel hw hk hio hchannel =>
    simp only [List.length_set] at hmax
    rcases loads_closed hs hmax hw hk hio with ⟨x, hx, hloads⟩
    constructor
    . simp
    . exact .inr (.inl ⟨k, w, x, rfl, by simp, hx, hloads⟩)
  | _ =>
    have ⟨hios, hloads⟩ := hother (by simp) (by simp)
    exact ⟨hios.ge, .inr (.inr ⟨by simp, by simp, hios, hloads⟩)⟩

end TcpServer

namespace BalancedServer

open Transition ListUpdate

def new (threadNum maxConnections nextLoopIdx : Nat) : BalancedServer where
  server := TcpServer.new threadNum maxConnections
  nextLoopIdx := nextLoopIdx

def connectionNums (s : BalancedServer) : List UInt32 :=
  s.server.workers.map Worker.connectionNum

-- `onAccept` hands the io to the loop that `nextLoop` returns, the other events do not use it.
def step (lb : LoadBalance) (s : BalancedServer) (event : TcpServerEvent) : Option BalancedServer :=
  match event with
  | .onAccept fd w =>
    match EventLoopThreadPool.nextLoop ⟨s.connectionNums, s.nextLoopIdx⟩ lb w with
    | some (idx, pool) =>
      if idx = w then (s.server.onAccept fd w).map (⟨·, pool.nextLoopIdx⟩) else none
    | none => none
  | event => (TcpServer.step s.server event).map (⟨·, s.nextLoopIdx⟩)

variable {lb : LoadBalance} {s t : BalancedServer} {e : TcpServerEvent} {es : List TcpServerEvent}

theorem server_step (h : step lb s e = some t) : TcpServer.step s.server e = some t.server := by
  unfold step at h
  split at h
  . next fd w =>
    split at h
    . split at h
      . rcases Option.map_eq_some_iff.mp h with ⟨server, hserver, ht⟩
        rw [← ht]
        exact hserver
      . simp at h
    . simp at h
  . rcases Option.map_eq_some_iff.mp h with ⟨server, hserver, ht⟩
    rw [← ht]
    exact hserver

theorem nextLoop_of_step {fd w : Nat} (h : step lb s (.onAccept fd w) = some t)
    : ∃ pool, EventLoopThreadPool.nextLoop ⟨s.connectionNums, s.nextLoopIdx⟩ lb w = some (w, pool) ∧
        t.nextLoopIdx = pool.nextLoopIdx := by
  simp only [step] at h
  split at h
  . next idx pool hnext =>
    split at h
    . next hidx =>
      rcases Option.map_eq_some_iff.mp h with ⟨server, _, ht⟩
      exact ⟨pool, hidx ▸ hnext, by rw [← ht]⟩
    . simp at h
  . simp at h

theorem nextLoopIdx_eq_of_step (h : step lb s e = some t) (he : ∀ fd w, e ≠ .onAccept fd w)
    : t.nextLoopIdx = s.nextLoopIdx := by
  unfold step at h
  split at h
  . next fd w => exact absurd rfl (he fd w)
  . rcases Option.map_eq_some_iff.mp h with ⟨server, _, ht⟩
    rw [← ht]

theorem steps_of_step (hwf : s.server.Wf) (h : step lb s e = some t)
    : TcpServer.Steps s.server e t.server := by
  apply TcpServer.steps_of_step hwf
  exact server_step h

theorem wf_inv_of_run {I : BalancedServer → Prop}
    (hstep : ∀ {s e t}, s.server.Wf → I s → step lb s e = some t → I t) (hwf : s.server.Wf)
    (hs : I s) (hrun : run (step lb) s es = some t)
    : t.server.Wf ∧ I t := by
  have hkeep : ∀ {s e t}, s.server.Wf ∧ I s → True → step lb s e = some t →
      t.server.Wf ∧ I t := by
    intro s e t hs _ h
    exact ⟨hs.left.of_steps (steps_of_step hs.left h), hstep hs.left hs.right h⟩
  apply Transition.inv_of_run hkeep ⟨hwf, hs⟩ _ hrun
  apply Meets.of_forall
  simp

section RoundRobin

-- The loops have been chosen in turn, beginning with `start`.
structure InTurn (threadNum start : Nat) (s : BalancedServer) : Prop where
  workers : s.server.workers.length = threadNum
  next : Balance.next threadNum s.nextLoopIdx = (start + s.server.ios.length) % threadNum
  count : ∀ w, s.server.loops.count w =
    Nat.count (fun j => (start + j) % threadNum = w) s.server.ios.length

theorem nextLoop_roundRobin {fd w : Nat} (h : step .roundRobin s (.onAccept fd w) = some t)
    : 0 < s.server.workers.length ∧ w = Balance.next s.server.workers.length s.nextLoopIdx ∧
        t.nextLoopIdx = w := by
  rcases nextLoop_of_step h with ⟨pool, hnext, hidx⟩
  simp only [EventLoopThreadPool.nextLoop, connectionNums, List.length_map] at hnext
  split at hnext
  . simp at hnext
  . next hpos =>
    simp only [Option.some.injEq, Prod.mk.injEq] at hnext
    refine ⟨Nat.pos_of_ne_zero hpos, hnext.left.symm, ?_⟩
    rw [hidx, ← hnext.right]
    exact hnext.left

theorem InTurn.of_step {threadNum start : Nat} (hwf : s.server.Wf) (hs : InTurn threadNum start s)
    (h : step .roundRobin s e = some t)
    : InTurn threadNum start t := by
  have hsteps := steps_of_step hwf h
  rcases hsteps.loops_eq with ⟨hworkers, hcases⟩
  have hlength : ∀ {s : TcpServer}, s.ios.length = s.loops.length := by
    simp [TcpServer.loops]
  rcases hcases with ⟨fd, w, he, hloops⟩ | ⟨he, hloops⟩
  . subst he
    rcases nextLoop_roundRobin h with ⟨hpos, hw, hidx⟩
    rw [hs.workers] at hpos hw
    rw [hs.next] at hw
    have hios : t.server.ios.length = s.server.ios.length + 1 := by
      simp [hlength, hloops]
    constructor
    . rw [hworkers, hs.workers]
    . rw [hidx, hw, Balance.next_mod hpos, hios, Nat.add_assoc]
    . intro v
      rw [hios, Nat.count_succ, hloops, List.count_append, hs.count v, ← hw, List.count_singleton]
      simp only [beq_iff_eq]
  . have hios : t.server.ios.length = s.server.ios.length := by
      rw [hlength, hlength, hloops]
    constructor
    . rw [hworkers, hs.workers]
    . rw [nextLoopIdx_eq_of_step h he, hios, hs.next]
    . rw [hloops, hios]
      exact hs.count

/--
With `LB_RoundRobin` each of the worker threads gets an equal share of the accepted connections, up to
one, whatever else happens in the run and wherever `next_loop_idx_` started.
-/
theorem accepted_of_roundRobin (threadNum max nextLoopIdx : Nat) (es : List TcpServerEvent)
    (s : BalancedServer)
    (hrun : run (step .roundRobin) (new threadNum max nextLoopIdx) es = some s) (w : Nat)
    (hw : w < threadNum)
    : s.server.ios.length / threadNum ≤ s.server.ios.countP (fun io => io.loop == w) ∧
        s.server.ios.countP (fun io => io.loop == w) ≤ s.server.ios.length / threadNum + 1 := by
  have hturn : InTurn threadNum (Balance.next threadNum nextLoopIdx) s := by
    have hwf := TcpServer.wf_new threadNum max
    apply And.right
    apply wf_inv_of_run (fun hwf hs h => hs.of_step hwf h) hwf _ hrun
    constructor
    . simp [new, TcpServer.new]
    . rw [new, TcpServer.new, List.length_nil, Nat.add_zero]
      exact (Nat.mod_eq_of_lt (Balance.next_lt (by omega) _)).symm
    . simp [new, TcpServer.new, TcpServer.loops]
  have hcount : s.server.ios.countP (fun io => io.loop == w) = s.server.loops.count w := by
    rw [TcpServer.loops, List.count, List.countP_map]
    rfl
  rw [hcount, hturn.count]
  exact Balance.count_turns hw _ _

-- Two workers, and three connections of which the first one is closed.
def threeAccepted : List TcpServerEvent :=
  [.onAccept 7 1, .newConnEvent 1, .addChannel 1, .onConnection 1, .onAccept 8 0, .onClose 0,
    .onAccept 9 1]

theorem accepted_of_roundRobin_threeAccepted
    : ∃ s, run (step .roundRobin) (new 2 9 0) threeAccepted = some s ∧
        3 / 2 ≤ s.server.ios.countP (fun io => io.loop == 0) ∧
        s.server.ios.countP (fun io => io.loop == 0) ≤ 3 / 2 + 1 :=
  ⟨_, rfl, accepted_of_roundRobin 2 9 0 threeAccepted _ rfl 0 (by decide)⟩

end RoundRobin

section LeastConnections

open Balance

theorem nextLoop_leastConnections {fd w : Nat}
    (h : step .leastConnections s (.onAccept fd w) = some t)
    : w = least s.server.loads := by
  rcases nextLoop_of_step h with ⟨pool, hnext, _⟩
  simp only [EventLoopThreadPool.nextLoop] at hnext
  split at hnext
  . simp at hnext
  . simp only [Option.some.injEq, Prod.mk.injEq] at hnext
    have hloads : s.server.loads = s.connectionNums.map UInt32.toNat := by
      simp [TcpServer.loads, connectionNums]
    rw [hloads, least_map]
    . exact hnext.left.symm
    . intro x y
      exact UInt32.lt_iff_toNat_lt.symm

theorem loads_of_step (hcounts : s.server.Counts) (hwf : s.server.Wf)
    (h : step .leastConnections s e = some t) (hmax : t.server.ios.length < 2 ^ 32)
    : s.server.ios.length ≤ t.server.ios.length ∧
        ((t.server.ios.length = s.server.ios.length + 1 ∧ e.isClose = false ∧
            t.server.loads = add s.server.loads) ∨
          (t.server.ios.length = s.server.ios.length ∧ e.isClose = true ∧
            ∃ w x, s.server.loads[w]? = some (x + 1) ∧
              t.server.loads = s.server.loads.set w x) ∨
          (t.server.ios.length = s.server.ios.length ∧ e.isClose = false ∧
            t.server.loads = s.server.loads)) := by
  have ⟨hle, hcases⟩ := (steps_of_step hwf h).loads_cases hcounts hmax
  refine ⟨hle, ?_⟩
  rcases hcases with ⟨fd, w, x, he, hios, hx, hloads⟩ | ⟨k, w, x, he, hios, hx, hloads⟩ |
    ⟨_, hclose, hios, hloads⟩
  . subst he
    have hw := nextLoop_leastConnections h
    refine .inl ⟨hios, rfl, ?_⟩
    rw [hloads, add, ← hw, modify_eq_set hx]
  . subst he
    exact .inr (.inl ⟨hios, rfl, w, x, hx, hloads⟩)
  . refine .inr (.inr ⟨hios, ?_, hloads⟩)
    cases e with
    | onClose k => exact absurd rfl (hclose k)
    | _ => rfl

theorem ios_le_of_run (hwf : s.server.Wf) (hrun : run (step lb) s es = some t)
    : s.server.ios.length ≤ t.server.ios.length := by
  apply And.right
  apply wf_inv_of_run _ hwf (Nat.le_refl s.server.ios.length) hrun
  intro u e v hwf hu h
  apply hu.trans
  rcases (steps_of_step hwf h).loops_eq.right with ⟨_, w, _, hloops⟩ | ⟨_, hloops⟩
  . have := congrArg List.length hloops
    simp only [TcpServer.loops, List.length_append, List.length_map] at this
    omega
  . have := congrArg List.length hloops
    simp only [TcpServer.loops, List.length_map] at this
    omega

/--
The rule for the loads in a run: `p n m` is what is true of them after `n` more connections have been
accepted and `m` have been closed.
-/
theorem loads_of_run {p : Nat → Nat → List Nat → Prop}
    (hadd : ∀ {n m loads}, p n m loads → p (n + 1) m (add loads))
    (hclose : ∀ {n m loads w x}, p n m loads → loads[w]? = some (x + 1) →
      p n (m + 1) (loads.set w x))
    : ∀ (es : List TcpServerEvent) (s t : BalancedServer) (n m : Nat), s.server.Wf →
        s.server.Counts → run (step .leastConnections) s es = some t →
        t.server.ios.length < 2 ^ 32 → p n m s.server.loads →
        p (n + (t.server.ios.length - s.server.ios.length)) (m + es.countP (·.isClose))
          t.server.loads := by
  intro es
  induction es with
  | nil =>
    intro s t n m _ _ hrun _ hs
    simp only [run_nil, Option.some.injEq] at hrun
    subst hrun
    simpa using hs
  | cons e es ih =>
    intro s t n m hwf hcounts hrun hmax hs
    rcases (run_cons_eq_some _ _ _ _).mp hrun with ⟨u, h, hrun⟩
    have hsteps := steps_of_step hwf h
    have hwf' := hwf.of_steps hsteps
    have hle := ios_le_of_run hwf' hrun
    have ih := fun n m => ih u t n m hwf' (hcounts.of_steps hsteps) hrun hmax
    have ⟨hle', hcases⟩ := loads_of_step hcounts hwf h (by omega)
    rcases hcases with ⟨hios, hclosed, hloads⟩ | ⟨hios, hclosed, w, x, hx, hloads⟩ |
      ⟨hios, hclosed, hloads⟩
    . have ih := ih (n + 1) m (hloads ▸ hadd hs)
      rw [List.countP_cons_of_neg (by simp [hclosed])]
      have hn : n + 1 + (t.server.ios.length - u.server.ios.length) =
          n + (t.server.ios.length - s.server.ios.length) := by
        omega
      rwa [hn] at ih
    . have ih := ih n (m + 1) (hloads ▸ hclose hs hx)
      rw [List.countP_cons_of_pos hclosed, ← hios]
      have hm : m + 1 + es.countP (·.isClose) = m + (es.countP (·.isClose) + 1) := by
        omega
      rwa [hm] at ih
    . have ih := ih n m (hloads ▸ hs)
      rwa [List.countP_cons_of_neg (by simp [hclosed]), ← hios]

/--
With `LB_LeastConnections` the `connectionNum`s of the worker loops are never further apart than one
more than the number of connections that have been closed.
-/
theorem within_of_leastConnections (threadNum max nextLoopIdx : Nat) (es : List TcpServerEvent)
    (s : BalancedServer)
    (hrun : run (step .leastConnections) (new threadNum max nextLoopIdx) es = some s)
    (hmax : s.server.ios.length < 2 ^ 32)
    : Within (1 + es.countP (·.isClose)) s.server.loads := by
  have hnew : Within 1 (new threadNum max nextLoopIdx).server.loads := by
    intro x hx y hy
    simp only [new, TcpServer.new, TcpServer.loads, List.map_replicate, List.mem_replicate] at hx
    simp [hx]
  have hwithin := loads_of_run (p := fun _ m loads => Within (1 + m) loads)
    (fun h => h.add (by omega)) (fun h hx => h.set_pred hx) es (new threadNum max nextLoopIdx) s 0 0
    (TcpServer.wf_new threadNum max) (TcpServer.counts_new threadNum max) hrun hmax hnew
  simpa using hwithin

-- The connection that is closed is replaced.
def threeToLeast : List TcpServerEvent :=
  [.onAccept 7 0, .newConnEvent 0, .addChannel 0, .onConnection 0, .onAccept 8 1, .onClose 0,
    .onAccept 9 0]

theorem within_of_leastConnections_threeToLeast
    : ∃ s, run (step .leastConnections) (new 2 9 0) threeToLeast = some s ∧
        Within (1 + 1) s.server.loads :=
  ⟨_, rfl, within_of_leastConnections 2 9 0 threeToLeast _ rfl (by decide)⟩

/--
Whatever the loads have become, `LB_LeastConnections` makes them level again: it takes as many
connections as are missing until all loops have as many as the first of them, and as are closed
meanwhile.
-/
theorem within_of_deficit_le (lb : LoadBalance) (threadNum max nextLoopIdx : Nat)
    (es fs : List TcpServerEvent) (s t : BalancedServer) (top : Nat)
    (hs : run (step lb) (new threadNum max nextLoopIdx) es = some s)
    (ht : run (step .leastConnections) s fs = some t) (hmax : t.server.ios.length < 2 ^ 32)
    (htop : ∀ x, x ∈ s.server.loads → x ≤ top)
    (haccepted : s.server.ios.length + (deficit top s.server.loads + fs.countP (·.isClose)) ≤
      t.server.ios.length)
    : Within (1 + fs.countP (·.isClose)) t.server.loads := by
  have ⟨hwf, hcounts⟩ : s.server.Wf ∧ s.server.Counts := by
    have hwf := TcpServer.wf_new threadNum max
    apply wf_inv_of_run _ hwf (TcpServer.counts_new threadNum max) hs
    intro s e t hwf hs h
    exact hs.of_steps (steps_of_step hwf h)
  have hstart : Levelling top (deficit top s.server.loads) 0 0 s.server.loads :=
    .inr ⟨htop, Nat.le_refl _⟩
  have hlevelling := loads_of_run (p := Levelling top (deficit top s.server.loads))
    (fun h => h.add) (fun h hx => h.set_pred hx) fs s t 0 0 hwf hcounts ht hmax hstart
  rw [Nat.zero_add, Nat.zero_add] at hlevelling
  apply hlevelling.within
  omega

-- Two connections are accepted in turn and the first one is closed.
def oneClosed : List TcpServerEvent :=
  [.onAccept 7 1, .newConnEvent 1, .addChannel 1, .onConnection 1, .onAccept 8 0, .onClose 0]

theorem within_of_deficit_le_oneClosed
    : ∃ s t, run (step .roundRobin) (new 2 9 0) oneClosed = some s ∧
        run (step .leastConnections) s [.onAccept 9 1] = some t ∧
        Within (1 + 0) t.server.loads :=
  ⟨_, _, rfl, rfl, within_of_deficit_le .roundRobin 2 9 0 oneClosed [.onAccept 9 1] _ _ 1 rfl rfl
    (by decide) (by decide) (by decide)⟩

end LeastConnections

end BalancedServer

end Libhv
