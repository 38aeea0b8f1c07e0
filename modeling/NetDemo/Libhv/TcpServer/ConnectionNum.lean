import NetDemo.Libhv.TcpServer.Lemmas

/-!
This module contains what `connectionNum` of a worker loop counts, the number by which
`LB_LeastConnections` chooses.
-/

namespace Libhv

def Connio.isRefused (io : Connio) : Bool :=
  io.channel.isNone && !io.hio.opened

-- An io in the `connectionNum` of the loop `w`.
def IoState.counted (w : Nat) (v : IoState) : Bool :=
  v.loop == w && (v.opened || !v.hasChannel)

namespace TcpServer

open Transition ListUpdate

def countedNum (ios : List Connio) (w : Nat) : Nat :=
  ios.countP fun io => io.state.counted w

theorem countedNum_set {ios : List Connio} {k : IoRef} {io : Connio} (hk : ios[k]? = some io)
    (io' : Connio) (w : Nat)
    : countedNum (ios.set k io') w + (io.state.counted w).toNat =
        countedNum ios w + (io'.state.counted w).toNat := by
  unfold countedNum
  exact countP_set_add hk io'

theorem countedNum_set_eq {ios : List Connio} {k : IoRef} {io io' : Connio}
    (hk : ios[k]? = some io) {w : Nat} (hsame : io'.state.counted w = io.state.counted w)
    : countedNum (ios.set k io') w = countedNum ios w := by
  have hcount := countedNum_set hk io' w
  rw [hsame] at hcount
  omega

theorem countedNum_eq_add (ios : List Connio) (w : Nat)
    : countedNum ios w =
        (ios.countP fun io => io.loop == w && io.hio.opened) +
          ios.countP fun io => io.loop == w && io.isRefused := by
  unfold countedNum
  induction ios with
  | nil => rfl
  | cons io ios ih =>
    have hhead : io.state.counted w =
        (io.loop == w && io.hio.opened || io.loop == w && io.isRefused) := by
      simp only [IoState.counted, Connio.state, Connio.isRefused]
      cases io.hio.opened with
      | true => simp
      | false => simp
    have hboth : ¬ (io.hio.opened = true ∧ io.isRefused = true) := by
      simp only [Connio.isRefused]
      cases io.hio.opened with
      | true => simp
      | false => simp
    simp only [List.countP_cons, ih, hhead]
    grind

structure Counts (s : TcpServer) : Prop where
  eq : ∀ w (worker : Worker), s.workers[w]? = some worker →
    worker.connectionNum = UInt32.ofNat (countedNum s.ios w)

-- Neither the counter of a worker nor what it counts changes.
theorem Counts.of_same {s t : TcpServer} (hs : s.Counts) {w : Nat} {worker worker' : Worker}
    (hw : s.workers[w]? = some worker) (ht : t.workers = s.workers.set w worker')
    (hnum : worker'.connectionNum = worker.connectionNum)
    (hios : ∀ j, countedNum t.ios j = countedNum s.ios j)
    : t.Counts where
  eq := by
    rw [ht]
    apply forall_set (p := fun j (x : Worker) => x.connectionNum = UInt32.ofNat _)
    . rw [hnum, hios, hs.eq w worker hw]
    . intro j x _ hx
      rw [hios, hs.eq j x hx]

theorem Counts.accepted {s : TcpServer} (hs : s.Counts) {w : Nat} {worker : Worker}
    (hw : s.workers[w]? = some worker) (io : Connio) (hio : io.state = ⟨w, true, false⟩)
    (customEvents : List IoRef)
    : Counts
        { s with
          ios := s.ios ++ [io]
          workers := s.workers.set w
            ⟨worker.connectionNum + 1, customEvents, worker.doing⟩ } where
  eq := by
    have happend : ∀ j, countedNum (s.ios ++ [io]) j =
        countedNum s.ios j + (io.state.counted j).toNat := by
      intro j
      simp [countedNum, List.countP_append, List.countP_cons, Bool.toNat, Bool.cond_eq_ite]
    simp only [happend, hio]
    apply forall_set (p := fun j (x : Worker) => x.connectionNum = UInt32.ofNat _)
    . rw [hs.eq w worker hw]
      simp [IoState.counted]
    . intro j x hj hx
      rw [hs.eq j x hx]
      have hne : (w == j) = false := beq_false_of_ne hj.symm
      simp [IoState.counted, hne]

theorem Counts.closed {s : TcpServer} (hs : s.Counts) {w : Nat} {worker : Worker}
    (hw : s.workers[w]? = some worker) {k : IoRef} {io : Connio} (hk : s.ios[k]? = some io)
    (hio : io.state = ⟨w, true, true⟩) (io' : Connio) (hio' : io'.state = ⟨w, false, true⟩)
    (customEvents : List IoRef) (doing : Doing)
    : Counts
        { s with
          ios := s.ios.set k io'
          workers := s.workers.set w ⟨worker.connectionNum - 1, customEvents, doing⟩ } where
  eq := by
    have hset := countedNum_set hk io'
    simp only [hio, hio', IoState.counted] at hset
    apply forall_set (p := fun j (x : Worker) => x.connectionNum = UInt32.ofNat _)
    . have hone : countedNum (s.ios.set k io') w + 1 = countedNum s.ios w := by
        simpa using hset w
      rw [hs.eq w worker hw, ← hone]
      simp
    . intro j x hj hx
      have hne : (w == j) = false := beq_false_of_ne hj.symm
      have hsame : countedNum (s.ios.set k io') j = countedNum s.ios j := by
        simpa [hne] using hset j
      rw [hs.eq j x hx, hsame]

theorem Counts.of_steps {s t : TcpServer} {e : TcpServerEvent} (hs : s.Counts) (h : Steps s e t)
    : t.Counts := by
  cases h with
  | accepted fd w worker hfd hw => exact hs.accepted hw _ rfl _
  | refused w num k customEvents io hw hfree hmax hk hio =>
    refine hs.of_same hw rfl rfl ?_
    intro j
    apply countedNum_set_eq hk
    have hnone : io.channel.isSome = false := congrArg IoState.hasChannel hio
    simp [IoState.counted, Connio.state, hnone]
  | checked w num k customEvents hw hfree hmax => exact hs.of_same hw rfl rfl (fun _ => rfl)
  | added w num k customEvents io hw hfree hk hio =>
    refine hs.of_same hw rfl rfl ?_
    intro j
    apply countedNum_set_eq hk
    have hopened : io.hio.opened = true := congrArg IoState.opened hio
    simp [IoState.counted, Connio.state, hopened]
  | connected w num k customEvents io hw hk hio => exact hs.of_same hw rfl rfl (fun _ => rfl)
  | closed w num k customEvents io channel hw hk hio hchannel =>
    apply hs.closed hw hk hio
    have hloop : io.loop = w := congrArg IoState.loop hio
    simp [Connio.state, hloop]
  | disconnected w num k customEvents io hw hk hio => exact hs.of_same hw rfl rfl (fun _ => rfl)
  | removed w num k customEvents hw hfree => exact hs.of_same hw rfl rfl (fun _ => rfl)
  | released k io hk hio =>
    have hsame : ∀ w, countedNum (s.ios.set k { io with fdInUse := false }) w =
        countedNum s.ios w :=
      fun w => countedNum_set_eq hk rfl
    constructor
    simpa only [hsame] using hs.eq
  | broadcast data hfree => exact ⟨hs.eq⟩
  | wrote data k rest io channel hnext hk hchannel =>
    have hsame : ∀ w, countedNum
        (s.ios.set k { io with channel := some (channel.write io.hio data) }) w =
          countedNum s.ios w := by
      intro w
      apply countedNum_set_eq hk
      simp [Connio.state, hchannel]
    constructor
    simpa only [hsame] using hs.eq
  | done data hnext => exact ⟨hs.eq⟩

theorem counts_new (threadNum max : Nat) : (new threadNum max).Counts := by
  constructor
  intro w worker hw
  have hworker : worker = ⟨0, [], .idle⟩ := by
    apply List.eq_of_mem_replicate
    exact List.mem_of_getElem? hw
  rw [hworker]
  rfl

/--
In every run the counter of a worker loop is the number of its ios that are open and of those that
were refused because of `max_connections`: the code never takes a refused one off the counter again.
-/
theorem connectionNum_eq_of_run (threadNum max : Nat) (es : List TcpServerEvent) (s : TcpServer)
    (hrun : run step (new threadNum max) es = some s) (w : Nat) (worker : Worker)
    (hw : s.workers[w]? = some worker)
    : worker.connectionNum = UInt32.ofNat
        ((s.ios.countP fun io => io.loop == w && io.hio.opened) +
          s.ios.countP fun io => io.loop == w && io.isRefused) := by
  have hcounts : s.Counts := by
    apply And.right
    apply (wf_new threadNum max).inv_of_run _ _ hrun
    . intro s e t _ hs h
      exact hs.of_steps h
    . apply counts_new
  rw [← countedNum_eq_add]
  exact hcounts.eq w worker hw

-- One connection is refused, the other one is opened and closed.
def refusedOnce : List TcpServerEvent :=
  [.onAccept 7 0, .newConnEvent 0, .addChannel 0, .onConnection 0, .onAccept 8 0, .newConnEvent 0,
    .onClose 0]

theorem connectionNum_eq_of_run_refusedOnce
    : ∃ s worker, run step (new 1 1) refusedOnce = some s ∧ s.workers[0]? = some worker ∧
        worker.connectionNum = UInt32.ofNat (0 + 1) :=
  ⟨_, _, rfl, rfl, connectionNum_eq_of_run 1 1 refusedOnce _ rfl 0 _ rfl⟩

end TcpServer

end Libhv
