import NetDemo.Libhv.TcpServer.Basic
import NetDemo.Lib.ListUpdate

/-!
This module says once what an event does to the server of libhv, and what is true of the server
after every run whatever the events were.
-/

namespace Libhv

-- What the callbacks of an io depend on.
structure IoState where
  loop : Nat
  opened : Bool
  hasChannel : Bool
  deriving DecidableEq

def Connio.state (io : Connio) : IoState where
  loop := io.loop
  opened := io.hio.opened
  hasChannel := io.channel.isSome

namespace TcpServer

open Transition ListUpdate

def ioState (ios : List Connio) (k : IoRef) : Option IoState :=
  ios[k]?.map Connio.state

theorem ioState_eq_some {ios : List Connio} {k : IoRef} {v : IoState}
    : ioState ios k = some v ↔ ∃ io, ios[k]? = some io ∧ io.state = v := by
  simp [ioState]

theorem ioState_set {ios : List Connio} {k : IoRef} {io : Connio} (hk : ios[k]? = some io)
    (io' : Connio)
    : ioState (ios.set k io') = Function.update (ioState ios) k (some io'.state) := by
  funext j
  have hlt := (List.getElem?_eq_some_iff.mp hk).1
  simp only [ioState, List.getElem?_set, Function.update_apply]
  grind

theorem ioState_append (ios : List Connio) (io : Connio)
    : ioState (ios ++ [io]) = Function.update (ioState ios) ios.length (some io.state) := by
  funext j
  simp only [ioState, List.getElem?_append, Function.update_apply]
  grind

theorem ioState_length (ios : List Connio) : ioState ios ios.length = none := by
  simp [ioState]

/--
What a worker thread is entitled to. A queued io is open and has no channel, and so is the io that
has passed the check of `newConnEvent`. The io that is being opened has its channel, and that of the
one that is being closed is still in `channels`.
-/
structure WorkerWf (ioState : IoRef → Option IoState) (channels : List IoRef) (w : Nat)
    (worker : Worker)
    : Prop where
  queued : ∀ k, k ∈ worker.customEvents → ioState k = some ⟨w, true, false⟩
  nodup : worker.customEvents.Nodup
  checked : ∀ k, worker.doing = .checked k →
    ioState k = some ⟨w, true, false⟩ ∧ k ∉ worker.customEvents
  added : ∀ k, worker.doing = .added k → ioState k = some ⟨w, true, true⟩
  closing : ∀ k, worker.doing = .closing k → ioState k = some ⟨w, false, true⟩ ∧ k ∈ channels
  disconnected : ∀ k, worker.doing = .disconnected k →
    ioState k = some ⟨w, false, true⟩ ∧ k ∈ channels

structure Wf (s : TcpServer) : Prop where
  workers : ∀ w worker, s.workers[w]? = some worker → WorkerWf (ioState s.ios) s.channels w worker
  status : ∀ (k : IoRef) (io : Connio) (channel : Channel), s.ios[k]? = some io →
    io.channel = some channel → channel.status = if io.hio.opened then .connected else .closed
  opened : ∀ k w, ioState s.ios k = some ⟨w, true, true⟩ → k ∈ s.channels
  channels : ∀ k, k ∈ s.channels → ∃ w opened, ioState s.ios k = some ⟨w, opened, true⟩
  sorted : s.channels.Pairwise (· < ·)
  remaining : ∀ data rest, s.broadcasting = some (data, rest) → rest <:+ s.channels

/--
What the events do to the server. A `newConnEvent` either refuses the io or passes the check.
-/
inductive Steps (s : TcpServer) : TcpServerEvent → TcpServer → Prop
  | accepted (fd w : Nat) (worker : Worker) (hfd : s.fdFree fd = true)
      (hw : s.workers[w]? = some worker)
      : Steps s (.onAccept fd w)
          { s with
            ios := s.ios ++ [⟨⟨fd, true⟩, true, w, none, 0⟩]
            workers := s.workers.set w
              ⟨worker.connectionNum + 1, worker.customEvents ++ [s.ios.length], worker.doing⟩ }
  | refused (w : Nat) (num : UInt32) (k : IoRef) (customEvents : List IoRef) (io : Connio)
      (hw : s.workers[w]? = some ⟨num, k :: customEvents, .idle⟩) (hfree : s.broadcasting = none)
      (hmax : s.maxConnections ≤ s.channels.length) (hk : s.ios[k]? = some io)
      (hio : io.state = ⟨w, true, false⟩)
      : Steps s (.newConnEvent w)
          { s with
            ios := s.ios.set k { io with hio.opened := false }
            workers := s.workers.set w ⟨num, customEvents, .idle⟩ }
  | checked (w : Nat) (num : UInt32) (k : IoRef) (customEvents : List IoRef)
      (hw : s.workers[w]? = some ⟨num, k :: customEvents, .idle⟩) (hfree : s.broadcasting = none)
      (hmax : s.channels.length < s.maxConnections)
      : Steps s (.newConnEvent w)
          { s with workers := s.workers.set w ⟨num, customEvents, .checked k⟩ }
  | added (w : Nat) (num : UInt32) (k : IoRef) (customEvents : List IoRef) (io : Connio)
      (hw : s.workers[w]? = some ⟨num, customEvents, .checked k⟩) (hfree : s.broadcasting = none)
      (hk : s.ios[k]? = some io) (hio : io.state = ⟨w, true, false⟩)
      : Steps s (.addChannel w)
          { s with
            ios := s.ios.set k
              { io with channel := some ⟨.connected, []⟩, joined := s.broadcasts.length }
            channels := s.channels.orderedInsert (· ≤ ·) k
            workers := s.workers.set w ⟨num, customEvents, .added k⟩ }
  | connected (w : Nat) (num : UInt32) (k : IoRef) (customEvents : List IoRef) (io : Connio)
      (hw : s.workers[w]? = some ⟨num, customEvents, .added k⟩) (hk : s.ios[k]? = some io)
      (hio : io.state = ⟨w, true, true⟩)
      : Steps s (.onConnection w)
          { s with
            dictChannel := Function.update s.dictChannel io.hio.fd (some k)
            workers := s.workers.set w ⟨num, customEvents, .idle⟩ }
  | closed (w : Nat) (num : UInt32) (k : IoRef) (customEvents : List IoRef) (io : Connio)
      (channel : Channel) (hw : s.workers[w]? = some ⟨num, customEvents, .idle⟩)
      (hk : s.ios[k]? = some io) (hio : io.state = ⟨w, true, true⟩)
      (hchannel : io.channel = some channel)
      : Steps s (.onClose k)
          { s with
            ios := s.ios.set k
              { io with hio.opened := false, channel := some { channel with status := .closed } }
            workers := s.workers.set w ⟨num - 1, customEvents, .closing k⟩ }
  | disconnected (w : Nat) (num : UInt32) (k : IoRef) (customEvents : List IoRef) (io : Connio)
      (hw : s.workers[w]? = some ⟨num, customEvents, .closing k⟩) (hk : s.ios[k]? = some io)
      (hio : io.state = ⟨w, false, true⟩)
      : Steps s (.onDisconnection w)
          { s with
            dictChannel := Function.update s.dictChannel io.hio.fd none
            workers := s.workers.set w ⟨num, customEvents, .disconnected k⟩ }
  | removed (w : Nat) (num : UInt32) (k : IoRef) (customEvents : List IoRef)
      (hw : s.workers[w]? = some ⟨num, customEvents, .disconnected k⟩)
      (hfree : s.broadcasting = none)
      : Steps s (.removeChannel w)
          { s with
            channels := s.channels.erase k
            workers := s.workers.set w ⟨num, customEvents, .idle⟩ }
  | released (k : IoRef) (io : Connio) (hk : s.ios[k]? = some io) (hio : io.hio.opened = false)
      : Steps s (.releaseFd k) { s with ios := s.ios.set k { io with fdInUse := false } }
  | broadcast (data : Bytes) (hfree : s.broadcasting = none)
      : Steps s (.broadcast data)
          { s with
            broadcasting := some (data, s.channels)
            broadcasts := s.broadcasts ++ [data] }
  | wrote (data : Bytes) (k : IoRef) (rest : List IoRef) (io : Connio) (channel : Channel)
      (hnext : s.broadcasting = some (data, k :: rest)) (hk : s.ios[k]? = some io)
      (hchannel : io.channel = some channel)
      : Steps s .write
          { s with
            ios := s.ios.set k { io with channel := some (channel.write io.hio data) }
            broadcasting := some (data, rest) }
  | done (data : Bytes) (hnext : s.broadcasting = some (data, []))
      : Steps s .broadcastDone { s with broadcasting := none }

theorem Wf.channel_eq {s : TcpServer} (hwf : s.Wf) {k : IoRef} {io : Connio} {w : Nat}
    {opened : Bool} (hk : s.ios[k]? = some io) (hio : io.state = ⟨w, opened, true⟩)
    : ∃ channel, io.channel = some channel ∧ channel.isConnected io.hio = opened := by
  simp only [Connio.state, IoState.mk.injEq, Option.isSome_iff_exists] at hio
  rcases hio with ⟨_, hopened, channel, hchannel⟩
  refine ⟨channel, hchannel, ?_⟩
  have hstatus := hwf.status k io channel hk hchannel
  rw [hopened] at hstatus
  cases opened with
  | true => simp [Channel.isConnected, Channel.isOpened, Status.down, hstatus, hopened]
  | false => simp [Channel.isConnected, Channel.isOpened, hopened]

theorem Wf.callOnConnection_eq {s : TcpServer} (hwf : s.Wf) {k : IoRef} {io : Connio} {w : Nat}
    {opened : Bool} (hk : s.ios[k]? = some io) (hio : io.state = ⟨w, opened, true⟩)
    : s.callOnConnection k =
        { s with
          dictChannel :=
            Function.update s.dictChannel io.hio.fd (if opened then some k else none) } := by
  rcases hwf.channel_eq hk hio with ⟨channel, hchannel, hconnected⟩
  obtain ⟨hio, fdInUse, loop, _, joined⟩ := io
  simp only at hchannel hconnected
  subst hchannel
  unfold callOnConnection
  simp only [hk, hconnected]
  cases opened with
  | true => rfl
  | false => rfl

theorem steps_newConnEvent {s t : TcpServer} (hwf : s.Wf) {w : Nat}
    (h : s.newConnEvent w = some t)
    : Steps s (.newConnEvent w) t := by
  unfold newConnEvent at h
  split at h
  . next num k customEvents hw hfree =>
    rcases ioState_eq_some.mp ((hwf.workers _ _ hw).queued k (by simp)) with ⟨io, hk, hio⟩
    rw [modify_eq_set hk] at h
    split at h
    . next hmax =>
      simp only [Option.some.injEq] at h
      exact h ▸ .refused w num k customEvents io hw hfree hmax hk hio
    . next hmax =>
      simp only [Option.some.injEq] at h
      exact h ▸ .checked w num k customEvents hw hfree (Nat.lt_of_not_le hmax)
  . simp at h

theorem steps_addChannel {s t : TcpServer} (hwf : s.Wf) {w : Nat} (h : s.addChannel w = some t)
    : Steps s (.addChannel w) t := by
  unfold addChannel at h
  split at h
  . next num customEvents k hw hfree =>
    rcases ioState_eq_some.mp ((hwf.workers _ _ hw).checked k rfl).left with ⟨io, hk, hio⟩
    have hopened : io.hio.opened = true := congrArg IoState.opened hio
    rw [modify_eq_set hk] at h
    simp only [Channel.new, hopened, if_true, Option.some.injEq] at h
    exact h ▸ .added w num k customEvents io hw hfree hk hio
  . simp at h

theorem steps_onConnection {s t : TcpServer} (hwf : s.Wf) {w : Nat} (h : s.onConnection w = some t)
    : Steps s (.onConnection w) t := by
  unfold onConnection at h
  split at h
  . next num customEvents k hw =>
    rcases ioState_eq_some.mp ((hwf.workers _ _ hw).added k rfl) with ⟨io, hk, hio⟩
    rw [hwf.callOnConnection_eq hk hio] at h
    simp only [if_true, Option.some.injEq] at h
    exact h ▸ .connected w num k customEvents io hw hk hio
  . simp at h

theorem steps_onClose {s t : TcpServer} {k : IoRef} (h : s.onClose k = some t)
    : Steps s (.onClose k) t := by
  unfold onClose at h
  split at h
  . next hio fdInUse w channel joined hk =>
    split at h
    . next num customEvents hw =>
      split at h
      . next hopened =>
        simp only [Option.some.injEq] at h
        subst h
        apply Steps.closed w num k customEvents _ channel hw hk _ rfl
        simp [Connio.state, hopened]
      . simp at h
    . simp at h
  . simp at h

theorem steps_onDisconnection {s t : TcpServer} (hwf : s.Wf) {w : Nat}
    (h : s.onDisconnection w = some t)
    : Steps s (.onDisconnection w) t := by
  unfold onDisconnection at h
  split at h
  . next num customEvents k hw =>
    rcases ioState_eq_some.mp ((hwf.workers _ _ hw).closing k rfl).left with ⟨io, hk, hio⟩
    rw [hwf.callOnConnection_eq hk hio] at h
    simp only [Bool.false_eq_true, if_false, Option.some.injEq] at h
    exact h ▸ .disconnected w num k customEvents io hw hk hio
  . simp at h

theorem steps_write {s t : TcpServer} (hwf : s.Wf) (h : s.writeNext = some t)
    : Steps s .write t := by
  unfold writeNext at h
  split at h
  . next data k rest hnext =>
    have hmem : k ∈ s.channels := (hwf.remaining _ _ hnext).mem (by simp)
    rcases hwf.channels k hmem with ⟨w, opened, hstate⟩
    rcases ioState_eq_some.mp hstate with ⟨io, hk, hio⟩
    rcases hwf.channel_eq hk hio with ⟨channel, hchannel, _⟩
    rw [modify_eq_set hk, hchannel] at h
    simp only [Option.map_some, Option.some.injEq] at h
    exact h ▸ .wrote data k rest io channel hnext hk hchannel
  . simp at h

theorem steps_of_step {s t : TcpServer} {e : TcpServerEvent} (hwf : s.Wf) (h : step s e = some t)
    : Steps s e t := by
  cases e with
  | onAccept fd w =>
    simp only [step, onAccept] at h
    split at h
    . next hfd =>
      split at h
      . next worker hw =>
        simp only [Option.some.injEq] at h
        exact h ▸ .accepted fd w worker hfd hw
      . simp at h
    . simp at h
  | newConnEvent w => exact steps_newConnEvent hwf h
  | addChannel w => exact steps_addChannel hwf h
  | onConnection w => exact steps_onConnection hwf h
  | onClose k => exact steps_onClose h
  | onDisconnection w => exact steps_onDisconnection hwf h
  | removeChannel w =>
    simp only [step, removeChannel] at h
    split at h
    . next num customEvents k hw hfree =>
      simp only [Option.some.injEq] at h
      exact h ▸ .removed w num k customEvents hw hfree
    . simp at h
  | releaseFd k =>
    simp only [step, releaseFd] at h
    split at h
    . next io hk =>
      split at h
      . simp at h
      . next hio =>
        simp only [Option.some.injEq] at h
        exact h ▸ .released k io hk (by simpa using hio)
    . simp at h
  | broadcast data =>
    simp only [step, broadcast] at h
    split at h
    . next hfree =>
      simp only [Option.some.injEq] at h
      exact h ▸ .broadcast data hfree
    . simp at h
  | write => exact steps_write hwf h
  | broadcastDone =>
    simp only [step, broadcastDone] at h
    split at h
    . next data hnext =>
      simp only [Option.some.injEq] at h
      exact h ▸ .done data hnext
    . simp at h

theorem step_of_steps {s t : TcpServer} {e : TcpServerEvent} (hwf : s.Wf) (h : Steps s e t)
    : step s e = some t := by
  cases h with
  | accepted fd w worker hfd hw => simp [step, onAccept, hfd, hw]
  | refused w num k customEvents io hw hfree hmax hk hio =>
    simp [step, newConnEvent, connectionNum, hw, hfree, hmax, modify_eq_set hk]
  | checked w num k customEvents hw hfree hmax =>
    simp [step, newConnEvent, connectionNum, hw, hfree, Nat.not_le_of_lt hmax]
  | added w num k customEvents io hw hfree hk hio =>
    have hopened : io.hio.opened = true := congrArg IoState.opened hio
    simp [step, addChannel, hw, hfree, modify_eq_set hk, Channel.new]
  | connected w num k customEvents io hw hk hio =>
    simp [step, onConnection, hw, hwf.callOnConnection_eq hk hio]
  | closed w num k customEvents io channel hw hk hio hchannel =>
    obtain ⟨hio', fdInUse, loop, channel', joined⟩ := io
    simp only [Connio.state, IoState.mk.injEq] at hio hchannel
    simp [step, onClose, hk, hchannel, hio.left, hio.right.left, hw]
  | disconnected w num k customEvents io hw hk hio =>
    simp [step, onDisconnection, hw, hwf.callOnConnection_eq hk hio]
  | removed w num k customEvents hw hfree => simp [step, removeChannel, hw, hfree]
  | released k io hk hio => simp [step, releaseFd, hk, hio]
  | broadcast data hfree => simp [step, broadcast, hfree]
  | wrote data k rest io channel hnext hk hchannel =>
    simp [step, writeNext, hnext, modify_eq_set hk, hchannel]
  | done data hnext => simp [step, broadcastDone, hnext]

/--
What one worker does to its own io is nothing to the other workers.
-/
theorem WorkerWf.other {st st' : IoRef → Option IoState} {channels channels' : List IoRef}
    {w w' : Nat} {worker : Worker} {k : IoRef} (h : WorkerWf st channels w worker) (hw : w ≠ w')
    (hk : ∀ v, st k = some v → v.loop = w') (hst : ∀ j, j ≠ k → st' j = st j)
    (hchannels : ∀ j, j ≠ k → j ∈ channels → j ∈ channels')
    : WorkerWf st' channels' w worker := by
  have hne : ∀ {j opened hasChannel}, st j = some ⟨w, opened, hasChannel⟩ → j ≠ k := by
    intro j opened hasChannel hj heq
    subst heq
    exact hw (hk _ hj)
  constructor
  . intro j hj
    rw [hst j (hne (h.queued j hj))]
    exact h.queued j hj
  . exact h.nodup
  . intro j hj
    rw [hst j (hne (h.checked j hj).left)]
    exact h.checked j hj
  . intro j hj
    rw [hst j (hne (h.added j hj))]
    exact h.added j hj
  . intro j hj
    have hne := hne (h.closing j hj).left
    rw [hst j hne]
    exact ⟨(h.closing j hj).left, hchannels j hne (h.closing j hj).right⟩
  . intro j hj
    have hne := hne (h.disconnected j hj).left
    rw [hst j hne]
    exact ⟨(h.disconnected j hj).left, hchannels j hne (h.disconnected j hj).right⟩

theorem Wf.workers_set {s : TcpServer} (hwf : s.Wf) {st' : IoRef → Option IoState}
    {channels' : List IoRef} {w : Nat} {worker' : Worker} {k : IoRef}
    (hk : ∀ v, ioState s.ios k = some v → v.loop = w)
    (hst : ∀ j, j ≠ k → st' j = ioState s.ios j)
    (hchannels : ∀ j, j ≠ k → j ∈ s.channels → j ∈ channels')
    (hself : WorkerWf st' channels' w worker')
    : ∀ w' x, (s.workers.set w worker')[w']? = some x → WorkerWf st' channels' w' x := by
  apply forall_set hself
  intro w' x hw hx
  apply (hwf.workers w' x hx).other hw hk hst hchannels

theorem Wf.setWorker {s : TcpServer} (hwf : s.Wf) {w : Nat} {worker' : Worker} {k : IoRef}
    {opened hasChannel : Bool} (hk : ioState s.ios k = some ⟨w, opened, hasChannel⟩)
    (hself : WorkerWf (ioState s.ios) s.channels w worker') (dictChannel : Int → Option IoRef)
    : Wf { s with workers := s.workers.set w worker', dictChannel := dictChannel } where
  workers := by
    apply hwf.workers_set (k := k)
    . grind
    . grind
    . grind
    . exact hself
  status := hwf.status
  opened := hwf.opened
  channels := hwf.channels
  sorted := hwf.sorted
  remaining := hwf.remaining

theorem Wf.setIo {s : TcpServer} (hwf : s.Wf) {k : IoRef} {io io' : Connio}
    (hk : s.ios[k]? = some io) (hstate : io'.state = io.state)
    (hstatus : ∀ channel, io'.channel = some channel →
      channel.status = if io'.hio.opened then .connected else .closed)
    (broadcasting : Option (Bytes × List IoRef))
    (hremaining : ∀ data rest, broadcasting = some (data, rest) → rest <:+ s.channels)
    : Wf { s with ios := s.ios.set k io', broadcasting := broadcasting } := by
  have hsame : ioState (s.ios.set k io') = ioState s.ios := by
    rw [ioState_set hk, hstate, Function.update_eq_self_iff]
    simp [ioState, hk]
  have ⟨hworkers, hstatus', hopened, hchannels, hsorted, _⟩ := hwf
  constructor
  . simpa only [hsame] using hworkers
  . grind
  . simpa only [hsame] using hopened
  . simpa only [hsame] using hchannels
  . apply hsorted
  . apply hremaining

theorem Wf.accepted {s : TcpServer} (hwf : s.Wf) {w : Nat} {worker : Worker}
    (hw : s.workers[w]? = some worker) (fd : Nat) (num : UInt32)
    : Wf
        { s with
          ios := s.ios ++ [⟨⟨fd, true⟩, true, w, none, 0⟩]
          workers := s.workers.set w
            ⟨num, worker.customEvents ++ [s.ios.length], worker.doing⟩ } := by
  have hnone := ioState_length s.ios
  have ⟨hworkers, hstatus, hopened, hchannels, hsorted, hremaining⟩ := hwf
  have ⟨hqueued, hnodup, hchecked, hadded, hclosing, hdisconnected⟩ := hworkers w worker hw
  constructor
  . simp only [ioState_append]
    apply hwf.workers_set (k := s.ios.length)
    . grind
    . grind [Function.update_apply]
    . grind
    . constructor
      all_goals grind [Connio.state]
  . grind
  . simp only [ioState_append, Function.update_apply]
    grind [Connio.state]
  . simp only [ioState_append, Function.update_apply]
    grind
  . apply hsorted
  . apply hremaining

-- A refused io is never looked at again.
theorem Wf.refused {s : TcpServer} (hwf : s.Wf) {w : Nat} {num : UInt32} {k : IoRef}
    {customEvents : List IoRef} {io : Connio}
    (hw : s.workers[w]? = some ⟨num, k :: customEvents, .idle⟩) (hk : s.ios[k]? = some io)
    : Wf
        { s with
          ios := s.ios.set k { io with hio.opened := false }
          workers := s.workers.set w ⟨num, customEvents, .idle⟩ } := by
  have ⟨hworkers, hstatus, hopened, hchannels, hsorted, hremaining⟩ := hwf
  have ⟨hqueued, hnodup, hchecked, hadded, hclosing, hdisconnected⟩ := hworkers w _ hw
  have hstate : ioState s.ios k = some ⟨w, true, false⟩ := hqueued k (by simp)
  have hnone : io.channel = none := by
    simp only [ioState, hk, Connio.state, Option.map_some, Option.some.injEq, IoState.mk.injEq,
      Option.isSome_eq_false_iff, Option.isNone_iff_eq_none] at hstate
    exact hstate.right.right
  constructor
  . simp only [ioState_set hk]
    apply hwf.workers_set (k := k)
    . grind
    . grind
    . grind
    . constructor
      all_goals grind
  . grind
  . simp only [ioState_set hk, Function.update_apply]
    grind [Connio.state]
  . simp only [ioState_set hk, Function.update_apply]
    grind
  . apply hsorted
  . apply hremaining

theorem pairwise_orderedInsert {k : IoRef} {ks : List IoRef} (h : ks.Pairwise (· < ·))
    (hk : k ∉ ks)
    : (ks.orderedInsert (· ≤ ·) k).Pairwise (· < ·) := by
  have hle : (ks.orderedInsert (· ≤ ·) k).Pairwise (· ≤ ·) :=
    (h.imp Nat.le_of_lt).orderedInsert k ks
  have hne : (ks.orderedInsert (· ≤ ·) k).Nodup := by
    rw [(ks.perm_orderedInsert _ k).nodup_iff, List.nodup_cons]
    exact ⟨hk, h.imp Nat.ne_of_lt⟩
  exact (hle.and hne).imp fun h => Nat.lt_of_le_of_ne h.left h.right

theorem Wf.added {s : TcpServer} (hwf : s.Wf) {w : Nat} {num : UInt32} {k : IoRef}
    {customEvents : List IoRef} {io : Connio}
    (hw : s.workers[w]? = some ⟨num, customEvents, .checked k⟩) (hfree : s.broadcasting = none)
    (hk : s.ios[k]? = some io) (hio : io.state = ⟨w, true, false⟩) (joined : Nat)
    : Wf
        { s with
          ios := s.ios.set k { io with channel := some ⟨.connected, []⟩, joined := joined }
          channels := s.channels.orderedInsert (· ≤ ·) k
          workers := s.workers.set w ⟨num, customEvents, .added k⟩ } := by
  have ⟨hworkers, hstatus, hopened, hchannels, hsorted, hremaining⟩ := hwf
  have ⟨hqueued, hnodup, hchecked, hadded, hclosing, hdisconnected⟩ := hworkers w _ hw
  have hstate : ioState s.ios k = some ⟨w, true, false⟩ := (hchecked k rfl).left
  have hstate' : Connio.state { io with channel := some ⟨.connected, []⟩, joined := joined } =
      ⟨w, true, true⟩ := by
    grind [Connio.state]
  constructor
  . simp only [ioState_set hk, hstate']
    apply hwf.workers_set (k := k)
    . grind
    . grind
    . grind [List.mem_orderedInsert]
    . constructor
      all_goals grind
  . grind [Connio.state]
  . simp only [ioState_set hk, hstate', Function.update_apply]
    grind [List.mem_orderedInsert]
  . simp only [ioState_set hk, hstate', Function.update_apply]
    intro j hj
    by_cases heq : j = k
    . exact ⟨w, true, by rw [if_pos heq]⟩
    . rw [if_neg heq]
      apply hchannels
      simpa [heq] using hj
  . apply pairwise_orderedInsert hsorted
    grind
  . grind

theorem Wf.closed {s : TcpServer} (hwf : s.Wf) {w : Nat} {num : UInt32} {k : IoRef}
    {customEvents : List IoRef} {io : Connio} {channel : Channel}
    (hw : s.workers[w]? = some ⟨num, customEvents, .idle⟩) (hk : s.ios[k]? = some io)
    (hio : io.state = ⟨w, true, true⟩) (num' : UInt32)
    : Wf
        { s with
          ios := s.ios.set k
            { io with hio.opened := false, channel := some { channel with status := .closed } }
          workers := s.workers.set w ⟨num', customEvents, .closing k⟩ } := by
  have ⟨hworkers, hstatus, hopened, hchannels, hsorted, hremaining⟩ := hwf
  have ⟨hqueued, hnodup, hchecked, hadded, hclosing, hdisconnected⟩ := hworkers w _ hw
  have hstate : ioState s.ios k = some ⟨w, true, true⟩ := ioState_eq_some.mpr ⟨io, hk, hio⟩
  constructor
  . simp only [ioState_set hk]
    apply hwf.workers_set (k := k)
    . grind
    . grind
    . grind
    . constructor
      all_goals grind [Connio.state]
  . grind
  . simp only [ioState_set hk, Function.update_apply]
    grind [Connio.state]
  . simp only [ioState_set hk, Function.update_apply]
    grind [Connio.state]
  . apply hsorted
  . apply hremaining

theorem Wf.removed {s : TcpServer} (hwf : s.Wf) {w : Nat} {num : UInt32} {k : IoRef}
    {customEvents : List IoRef} (hw : s.workers[w]? = some ⟨num, customEvents, .disconnected k⟩)
    (hfree : s.broadcasting = none)
    : Wf
        { s with
          channels := s.channels.erase k
          workers := s.workers.set w ⟨num, customEvents, .idle⟩ } := by
  have ⟨hworkers, hstatus, hopened, hchannels, hsorted, hremaining⟩ := hwf
  have ⟨hqueued, hnodup, hchecked, hadded, hclosing, hdisconnected⟩ := hworkers w _ hw
  constructor
  . apply hwf.workers_set (k := k)
    . grind
    . grind
    . grind
    . constructor
      all_goals grind
  . apply hstatus
  . grind
  . grind
  . apply hsorted.erase
  . grind

theorem Wf.setBroadcasting {s : TcpServer} (hwf : s.Wf)
    (broadcasting : Option (Bytes × List IoRef))
    (hremaining : ∀ data rest, broadcasting = some (data, rest) → rest <:+ s.channels)
    (broadcasts : List Bytes)
    : Wf { s with broadcasting := broadcasting, broadcasts := broadcasts } where
  workers := hwf.workers
  status := hwf.status
  opened := hwf.opened
  channels := hwf.channels
  sorted := hwf.sorted
  remaining := hremaining

theorem Wf.of_steps {s t : TcpServer} {e : TcpServerEvent} (hwf : s.Wf) (h : Steps s e t)
    : t.Wf := by
  cases h with
  | accepted fd w worker hfd hw => exact hwf.accepted hw fd _
  | refused w num k customEvents io hw hfree hmax hk hio => exact hwf.refused hw hk
  | checked w num k customEvents hw hfree hmax =>
    have ⟨hqueued, hnodup, _, _, _, _⟩ := hwf.workers w _ hw
    apply hwf.setWorker (hqueued k (by simp))
    constructor
    all_goals grind
  | added w num k customEvents io hw hfree hk hio => exact hwf.added hw hfree hk hio _
  | connected w num k customEvents io hw hk hio =>
    have ⟨hqueued, hnodup, _, _, _, _⟩ := hwf.workers w _ hw
    apply hwf.setWorker (ioState_eq_some.mpr ⟨io, hk, hio⟩)
    constructor
    all_goals grind
  | closed w num k customEvents io channel hw hk hio hchannel => exact hwf.closed hw hk hio _
  | disconnected w num k customEvents io hw hk hio =>
    have ⟨hqueued, hnodup, _, _, hclosing, _⟩ := hwf.workers w _ hw
    apply hwf.setWorker (ioState_eq_some.mpr ⟨io, hk, hio⟩)
    constructor
    all_goals grind
  | removed w num k customEvents hw hfree => exact hwf.removed hw hfree
  | released k io hk hio =>
    apply hwf.setIo hk
    . rfl
    . exact fun channel => hwf.status k io channel hk
    . exact hwf.remaining
  | broadcast data hfree =>
    apply hwf.setBroadcasting
    grind
  | wrote data k rest io channel hnext hk hchannel =>
    apply hwf.setIo hk
    . simp [Connio.state, hchannel]
    . intro channel' hchannel'
      simp only [Option.some.injEq] at hchannel'
      rw [← hchannel', Channel.status_write]
      exact hwf.status k io channel hk hchannel
    . have hsuffix := hwf.remaining _ _ hnext
      grind [List.IsSuffix.trans, List.suffix_cons]
  | done data hnext =>
    apply hwf.setBroadcasting
    grind

theorem wf_new (threadNum maxConnections : Nat) : (new threadNum maxConnections).Wf := by
  constructor
  . intro w worker hw
    simp only [new, List.getElem?_replicate] at hw
    constructor
    all_goals grind
  all_goals simp [new, ioState]

/--
The invariant rule of the server: what every step from a well-formed state keeps.
-/
theorem Wf.inv_of_run {I : TcpServer → Prop}
    (hstep : ∀ {s e t}, s.Wf → I s → Steps s e t → I t) {es : List TcpServerEvent}
    {s t : TcpServer} (hwf : s.Wf) (hs : I s) (hrun : run step s es = some t)
    : t.Wf ∧ I t := by
  have hkeep : ∀ {s e t}, s.Wf ∧ I s → True → step s e = some t → t.Wf ∧ I t := by
    intro s e t hs _ h
    have hsteps := steps_of_step hs.left h
    exact ⟨hs.left.of_steps hsteps, hstep hs.left hs.right hsteps⟩
  apply Transition.inv_of_run hkeep ⟨hwf, hs⟩ _ hrun
  apply Meets.of_forall
  simp

end TcpServer

end Libhv
