import NetDemo.Libhv.TcpServer.Lemmas
import Mathlib.Data.Fintype.EquivFin
import Mathlib.Order.Bounds.Basic

/-!
This module contains what `max_connections` limits: the workers compare the number of channels with
it under `mutex_`, but they add the channel under another lock of the mutex.
-/

namespace Libhv

def Doing.isIdle (doing : Doing) : Bool :=
  match doing with
  | .idle => true
  | _ => false

def Doing.isChecked (doing : Doing) : Bool :=
  match doing with
  | .checked _ => true
  | _ => false

theorem Doing.eq_checked {doing : Doing} (h : doing.isChecked = true) : ∃ k, doing = .checked k := by
  cases doing with
  | checked k => exact ⟨k, rfl⟩
  | _ => simp [isChecked] at h

namespace TcpServer

open Transition ListUpdate

def mostChannels (threadNum maxConnections : Nat) : Nat :=
  if maxConnections = 0 then 0 else maxConnections - 1 + threadNum

-- The workers between the check and `addChannel`.
def checkedNum (s : TcpServer) : Nat :=
  s.workers.countP fun worker => worker.doing.isChecked

structure Limited (threadNum max : Nat) (s : TcpServer) : Prop where
  length : s.workers.length = threadNum
  maxConnections : s.maxConnections = max
  le : s.channels.length + s.checkedNum ≤ mostChannels threadNum max

theorem checkedNum_set_add {s t : TcpServer} {w : Nat} {worker worker' : Worker}
    (hw : s.workers[w]? = some worker) (ht : t.workers = s.workers.set w worker')
    : t.checkedNum + worker.doing.isChecked.toNat =
        s.checkedNum + worker'.doing.isChecked.toNat := by
  unfold checkedNum
  rw [ht]
  exact countP_set_add hw worker'

theorem Limited.of_set {threadNum max : Nat} {s t : TcpServer} (hs : Limited threadNum max s)
    {w : Nat} {worker worker' : Worker} (hw : s.workers[w]? = some worker)
    (ht : t.workers = s.workers.set w worker') (hmax : t.maxConnections = s.maxConnections)
    (hle : t.channels.length + worker'.doing.isChecked.toNat ≤
      s.channels.length + worker.doing.isChecked.toNat)
    : Limited threadNum max t where
  length := by
    rw [ht, List.length_set]
    exact hs.length
  maxConnections := by
    rw [hmax]
    exact hs.maxConnections
  le := by
    have hcount := checkedNum_set_add hw ht
    have := hs.le
    omega

theorem Limited.of_steps {threadNum max : Nat} {s t : TcpServer} {e : TcpServerEvent}
    (hs : Limited threadNum max s) (h : Steps s e t)
    : Limited threadNum max t := by
  cases h with
  | accepted fd w worker hfd hw => exact hs.of_set hw rfl rfl (Nat.le_refl _)
  | refused w num k customEvents io hw hfree hmax hk hio =>
    exact hs.of_set hw rfl rfl (Nat.le_refl _)
  | checked w num k customEvents hw hfree hmax =>
    -- another worker may have passed the check before, but this one has not
    have hlt : s.checkedNum < s.workers.length := countP_lt_length hw rfl
    have hcount := checkedNum_set_add hw
      (rfl : { s with workers := s.workers.set w ⟨num, customEvents, .checked k⟩ }.workers = _)
    have ⟨hlength, hmax', _⟩ := hs
    simp only [Doing.isChecked, Bool.toNat_false, Bool.toNat_true] at hcount
    refine ⟨by simpa using hlength, hmax', ?_⟩
    rw [mostChannels, if_neg (by omega)]
    dsimp only
    omega
  | added w num k customEvents io hw hfree hk hio =>
    refine hs.of_set hw rfl rfl ?_
    simp [Doing.isChecked, List.orderedInsert_length]
  | connected w num k customEvents io hw hk hio => exact hs.of_set hw rfl rfl (Nat.le_refl _)
  | closed w num k customEvents io channel hw hk hio hchannel =>
    exact hs.of_set hw rfl rfl (Nat.le_refl _)
  | disconnected w num k customEvents io hw hk hio => exact hs.of_set hw rfl rfl (Nat.le_refl _)
  | removed w num k customEvents hw hfree =>
    refine hs.of_set hw rfl rfl ?_
    simpa [Doing.isChecked] using List.length_erase_le
  | released k io hk hio => exact ⟨hs.length, hs.maxConnections, hs.le⟩
  | broadcast data hfree => exact ⟨hs.length, hs.maxConnections, hs.le⟩
  | wrote data k rest io channel hnext hk hchannel => exact ⟨hs.length, hs.maxConnections, hs.le⟩
  | done data hnext => exact ⟨hs.length, hs.maxConnections, hs.le⟩

theorem limited_new (threadNum max : Nat) : Limited threadNum max (new threadNum max) where
  length := by simp [new]
  maxConnections := rfl
  le := by simp [new, checkedNum, Doing.isChecked, List.countP_replicate]

theorem connectionNum_le {threadNum max : Nat} {es : List TcpServerEvent} {s : TcpServer}
    (hrun : run step (new threadNum max) es = some s)
    : s.connectionNum ≤ mostChannels threadNum max := by
  have hlimited : Limited threadNum max s := by
    apply And.right
    apply (wf_new threadNum max).inv_of_run _ (limited_new threadNum max) hrun
    intro s e t _ hs h
    exact hs.of_steps h
  have := hlimited.le
  unfold connectionNum
  omega

/-!
The run that reaches the bound: all connections but one are opened one after the other, then every
worker passes the check before any of them adds its channel.
-/

-- The workers below `i` are as `early` says, the others as `late` does.
structure Racing (threadNum max i channels : Nat) (early late : Doing → Bool) (s : TcpServer)
    : Prop where
  wf : s.Wf
  length : s.workers.length = threadNum
  maxConnections : s.maxConnections = max
  free : s.broadcasting = none
  channels : s.channels.length = channels
  workers : ∀ w worker, s.workers[w]? = some worker →
    worker.customEvents = [] ∧ (if w < i then early worker.doing else late worker.doing) = true

theorem exists_fdFree (s : TcpServer) : ∃ fd : Nat, s.fdFree fd = true := by
  rcases Infinite.exists_notMem_finset (s.ios.map fun io => io.hio.fd.toNat).toFinset with ⟨fd, hfd⟩
  refine ⟨fd, ?_⟩
  unfold fdFree
  rw [List.all_eq_true]
  intro io hio
  have hne : io.hio.fd ≠ fd := by
    intro heq
    apply hfd
    rw [List.mem_toFinset, List.mem_map]
    exact ⟨io, hio, by simp [heq]⟩
  simp [hne]

-- An idle worker takes a new connection through the check.
theorem exists_run_checked {s : TcpServer} (hwf : s.Wf) {w : Nat} {num : UInt32}
    (hw : s.workers[w]? = some ⟨num, [], .idle⟩) (hfree : s.broadcasting = none)
    (hmax : s.channels.length < s.maxConnections)
    : ∃ es t, run step s es = some t ∧ t.Wf ∧
        t.workers = s.workers.set w ⟨num + 1, [], .checked s.ios.length⟩ ∧
        t.maxConnections = s.maxConnections ∧ t.broadcasting = none ∧
        t.channels = s.channels := by
  rcases exists_fdFree s with ⟨fd, hfd⟩
  have hlt : w < s.workers.length := (List.getElem?_eq_some_iff.mp hw).1
  have haccepted : Steps s (.onAccept fd w)
      { s with
        ios := s.ios ++ [⟨⟨fd, true⟩, true, w, none, 0⟩]
        workers := s.workers.set w ⟨num + 1, [s.ios.length], .idle⟩ } :=
    .accepted fd w _ hfd hw
  have hwf' := hwf.of_steps haccepted
  have hchecked := Steps.checked w (num + 1) s.ios.length []
    (List.getElem?_set_self hlt : (s.workers.set w _)[w]? = some _) hfree hmax
    (s := { s with
      ios := s.ios ++ [⟨⟨fd, true⟩, true, w, none, 0⟩]
      workers := s.workers.set w ⟨num + 1, [s.ios.length], .idle⟩ })
  refine ⟨[.onAccept fd w, .newConnEvent w], _, ?_, hwf'.of_steps hchecked, ?_, rfl, hfree, rfl⟩
  . simp [run_cons_eq_some, step_of_steps hwf haccepted, step_of_steps hwf' hchecked]
  . simp

theorem exists_run_added {s : TcpServer} (hwf : s.Wf) {w : Nat} {num : UInt32} {k : IoRef}
    (hw : s.workers[w]? = some ⟨num, [], .checked k⟩) (hfree : s.broadcasting = none)
    : ∃ t, run step s [.addChannel w] = some t ∧ t.Wf ∧
        t.workers = s.workers.set w ⟨num, [], .added k⟩ ∧
        t.maxConnections = s.maxConnections ∧ t.broadcasting = none ∧
        t.channels.length = s.channels.length + 1 := by
  rcases ioState_eq_some.mp ((hwf.workers _ _ hw).checked k rfl).left with ⟨io, hk, hio⟩
  have hadded := Steps.added w num k [] io hw hfree hk hio
  refine ⟨_, ?_, hwf.of_steps hadded, rfl, rfl, hfree, ?_⟩
  . simp [run_cons_eq_some, step_of_steps hwf hadded]
  . exact List.orderedInsert_length _ _ _

theorem exists_run_connected {s : TcpServer} (hwf : s.Wf) {w : Nat} {num : UInt32} {k : IoRef}
    (hw : s.workers[w]? = some ⟨num, [], .added k⟩)
    : ∃ t, run step s [.onConnection w] = some t ∧ t.Wf ∧
        t.workers = s.workers.set w ⟨num, [], .idle⟩ ∧
        t.maxConnections = s.maxConnections ∧ t.broadcasting = s.broadcasting ∧
        t.channels = s.channels := by
  rcases ioState_eq_some.mp ((hwf.workers _ _ hw).added k rfl) with ⟨io, hk, hio⟩
  have hconnected := Steps.connected w num k [] io hw hk hio
  refine ⟨_, ?_, hwf.of_steps hconnected, rfl, rfl, rfl, rfl⟩
  simp [run_cons_eq_some, step_of_steps hwf hconnected]

theorem Racing.of_set {threadNum max i i' channels channels' : Nat} {early late : Doing → Bool}
    {s t : TcpServer} (hs : Racing threadNum max i channels early late s) (hwf : t.Wf) {w : Nat}
    {worker' : Worker} (ht : t.workers = s.workers.set w worker')
    (hmax : t.maxConnections = s.maxConnections) (hfree : t.broadcasting = none)
    (hchannels : t.channels.length = channels')
    (hself : worker'.customEvents = [] ∧
      (if w < i' then early worker'.doing else late worker'.doing) = true)
    (hi : ∀ j, j ≠ w → (j < i' ↔ j < i))
    : Racing threadNum max i' channels' early late t where
  wf := hwf
  length := by
    rw [ht, List.length_set]
    exact hs.length
  maxConnections := by
    rw [hmax]
    exact hs.maxConnections
  free := hfree
  channels := hchannels
  workers := by
    rw [ht]
    apply forall_set (p := fun j (x : Worker) => x.customEvents = [] ∧
      (if j < i' then early x.doing else late x.doing) = true) hself
    intro j x hj hx
    simp only [hi j hj]
    exact hs.workers j x hx

theorem Racing.exists_worker {threadNum max i channels : Nat} {early late : Doing → Bool}
    {s : TcpServer} (hs : Racing threadNum max i channels early late s) (hi : i < threadNum)
    : ∃ num doing, s.workers[i]? = some ⟨num, [], doing⟩ ∧ late doing = true := by
  rw [← hs.length] at hi
  have hw := hs.workers i s.workers[i] (List.getElem?_eq_getElem hi)
  simp only [Nat.lt_irrefl, if_false] at hw
  refine ⟨s.workers[i].connectionNum, s.workers[i].doing, ?_, hw.right⟩
  rw [List.getElem?_eq_getElem hi, ← hw.left]

theorem Doing.eq_idle {doing : Doing} (h : doing.isIdle = true) : doing = .idle := by
  cases doing with
  | idle => rfl
  | _ => simp [Doing.isIdle] at h

-- One connection more, opened before the next one comes.
theorem Racing.exists_run_opened {threadNum max channels : Nat} {s : TcpServer}
    (hs : Racing threadNum max 0 channels Doing.isIdle Doing.isIdle s) (hpos : 0 < threadNum)
    (hlt : channels < max)
    : ∃ es t, run step s es = some t ∧
        Racing threadNum max 0 (channels + 1) Doing.isIdle Doing.isIdle t := by
  rcases hs.exists_worker hpos with ⟨num, doing, hw, hdoing⟩
  rw [Doing.eq_idle hdoing] at hw
  have hmax : s.channels.length < s.maxConnections := by
    rw [hs.channels, hs.maxConnections]
    exact hlt
  have hpos' : 0 < s.workers.length := by
    rw [hs.length]
    exact hpos
  rcases exists_run_checked hs.wf hw hs.free hmax with ⟨es, t, hrun, ht, htw, htm, htf, htc⟩
  have htw0 : t.workers[0]? = some ⟨num + 1, [], .checked s.ios.length⟩ := by simp [htw, hpos']
  rcases exists_run_added ht htw0 htf with ⟨u, hrun', hu, huw, hum, huf, huc⟩
  have huw0 : u.workers[0]? = some ⟨num + 1, [], .added s.ios.length⟩ := by
    simp [huw, htw, hpos']
  rcases exists_run_connected hu huw0 with ⟨v, hrun'', hv, hvw, hvm, hvf, hvc⟩
  refine ⟨es ++ ([.addChannel 0] ++ [.onConnection 0]), v, ?_, ?_⟩
  . simp only [run_append, hrun, hrun', hrun'', Option.bind_some]
  . have hworkers : v.workers = s.workers.set 0 ⟨num + 1, [], .idle⟩ := by simp [hvw, huw, htw]
    apply hs.of_set hv hworkers
    . rw [hvm, hum, htm]
    . rw [hvf, huf]
    . rw [hvc, huc, htc, hs.channels]
    . simp [Doing.isIdle]
    . simp

theorem Racing.exists_run_raced {threadNum max i : Nat} {s : TcpServer}
    (hs : Racing threadNum max i (max - 1) Doing.isChecked Doing.isIdle s) (hi : i < threadNum)
    (hmax : 0 < max)
    : ∃ es t, run step s es = some t ∧
        Racing threadNum max (i + 1) (max - 1) Doing.isChecked Doing.isIdle t := by
  rcases hs.exists_worker hi with ⟨num, doing, hw, hdoing⟩
  rw [Doing.eq_idle hdoing] at hw
  have hlt : s.channels.length < s.maxConnections := by
    rw [hs.channels, hs.maxConnections]
    omega
  rcases exists_run_checked hs.wf hw hs.free hlt with ⟨es, t, hrun, ht, htw, htm, htf, htc⟩
  refine ⟨es, t, hrun, ?_⟩
  apply hs.of_set ht htw htm htf
  . rw [htc, hs.channels]
  . simp [Doing.isChecked]
  . omega

theorem Racing.exists_run_added {threadNum max i channels : Nat} {s : TcpServer}
    (hs : Racing threadNum max i (channels + i) (fun _ => true) Doing.isChecked s)
    (hi : i < threadNum)
    : ∃ es t, run step s es = some t ∧
        Racing threadNum max (i + 1) (channels + (i + 1)) (fun _ => true) Doing.isChecked t := by
  rcases hs.exists_worker hi with ⟨num, doing, hw, hdoing⟩
  rcases Doing.eq_checked hdoing with ⟨k, hk⟩
  rw [hk] at hw
  rcases TcpServer.exists_run_added hs.wf hw hs.free with ⟨t, hrun, ht, htw, htm, htf, htc⟩
  refine ⟨[.addChannel i], t, hrun, ?_⟩
  apply hs.of_set ht htw htm htf
  . rw [htc, hs.channels, Nat.add_assoc]
  . simp
  . omega

theorem racing_new (threadNum max : Nat)
    : Racing threadNum max 0 0 Doing.isIdle Doing.isIdle (new threadNum max) where
  wf := wf_new threadNum max
  length := by simp [new]
  maxConnections := rfl
  free := rfl
  channels := rfl
  workers := by
    intro w worker hw
    simp only [new, List.getElem?_replicate] at hw
    grind [Doing.isIdle]

theorem exists_run_connectionNum {threadNum max : Nat} (hpos : 0 < threadNum) (hmax : 0 < max)
    : ∃ es s, run step (new threadNum max) es = some s ∧
        s.connectionNum = max - 1 + threadNum := by
  have hopened : ∃ es s, run step (new threadNum max) es = some s ∧
      Racing threadNum max 0 (max - 1) Doing.isIdle Doing.isIdle s := by
    apply exists_run_of_rounds
      (p := fun i s => Racing threadNum max 0 i Doing.isIdle Doing.isIdle s)
    . intro i s hi hs
      apply hs.exists_run_opened hpos
      omega
    . exact racing_new threadNum max
  rcases hopened with ⟨es, s, hes, hs⟩
  have hraced : ∃ fs t, run step s fs = some t ∧
      Racing threadNum max threadNum (max - 1) Doing.isChecked Doing.isIdle t := by
    apply exists_run_of_rounds
      (p := fun i s => Racing threadNum max i (max - 1) Doing.isChecked Doing.isIdle s)
    . intro i s hi hs
      exact hs.exists_run_raced hi hmax
    . exact ⟨hs.wf, hs.length, hs.maxConnections, hs.free, hs.channels, by simpa using hs.workers⟩
  rcases hraced with ⟨fs, t, hfs, ht⟩
  have hchecked : Racing threadNum max 0 (max - 1 + 0) (fun _ => true) Doing.isChecked t := by
    refine ⟨ht.wf, ht.length, ht.maxConnections, ht.free, ht.channels, ?_⟩
    intro w worker hw
    have hlt : w < threadNum := by
      rw [← ht.length]
      exact (List.getElem?_eq_some_iff.mp hw).1
    simpa [hlt] using ht.workers w worker hw
  have hadded : ∃ gs u, run step t gs = some u ∧
      Racing threadNum max threadNum (max - 1 + threadNum) (fun _ => true) Doing.isChecked u := by
    apply exists_run_of_rounds
      (p := fun i s => Racing threadNum max i (max - 1 + i) (fun _ => true) Doing.isChecked s)
    . intro i s hi hs
      exact hs.exists_run_added hi
    . exact hchecked
  rcases hadded with ⟨gs, u, hgs, hu⟩
  refine ⟨es ++ (fs ++ gs), u, ?_, hu.channels⟩
  simp only [run_append, hes, hfs, hgs, Option.bind_some]

theorem exists_run_mostChannels (threadNum max : Nat) (hpos : 0 < threadNum)
    : ∃ es s, run step (new threadNum max) es = some s ∧
        s.connectionNum = mostChannels threadNum max := by
  unfold mostChannels
  split
  . exact ⟨[], new threadNum max, rfl, rfl⟩
  . apply exists_run_connectionNum hpos
    omega

/--
The limit is off by the number of worker threads: over all runs, with every order of the steps of
the threads, the most channels that a server with workers holds at a time are `max_connections - 1`
and one for each worker, and none if `max_connections` is 0.
-/
theorem isGreatest_connectionNum (threadNum max : Nat) (hpos : 0 < threadNum)
    : IsGreatest
        {num | ∃ es s, run step (new threadNum max) es = some s ∧ s.connectionNum = num}
        (if max = 0 then 0 else max - 1 + threadNum) := by
  constructor
  . exact exists_run_mostChannels threadNum max hpos
  . rintro num ⟨es, s, hrun, hnum⟩
    rw [← hnum]
    exact connectionNum_le hrun

theorem isGreatest_connectionNum_fourWorkers
    : IsGreatest {num | ∃ es s, run step (new 4 100) es = some s ∧ s.connectionNum = num} 103 := by
  exact isGreatest_connectionNum 4 100 (by decide)

end TcpServer

end Libhv
