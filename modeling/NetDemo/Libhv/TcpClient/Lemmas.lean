import NetDemo.Libhv.TcpClient.Basic

/-!
This module says once what an event does to the client of libhv.
-/

namespace Libhv

namespace TcpClient

open Transition

def status (c : TcpClient) : Option Status :=
  c.channel.map Channel.status

-- An io that is open has a channel that is not closed, and `onclose` is set if it is in use.
structure Wf (c : TcpClient) : Prop where
  opened : c.io.opened = true ↔ ∃ status, c.status = some status ∧ status.down = false
  callbacks : c.io.opened = true → (c.callbacks = true ↔ c.status ≠ some .opened)

-- The updates that the events are made of.
def created (c : TcpClient) (connfd : Int) : TcpClient :=
  { c with io := ⟨connfd, true⟩, channel := some ⟨.opened, []⟩, callbacks := false }

def connecting (c : TcpClient) (io : Hio) (channel : Channel) : TcpClient :=
  { c with
    io := io
    channel := some { channel with status := .connecting }
    callbacks := true
    connects := c.connects + 1 }

def connected (c : TcpClient) (channel : Channel) : TcpClient :=
  { c with
    channel := some { channel with status := .connected }
    notified := c.notified ++ [true]
    reconnSetting := c.reconnSetting.map ReconnSetting.reset
    losses := 0
    delays := [] }

def closed (c : TcpClient) (channel : Channel) : TcpClient :=
  { c with
    io := { c.io with opened := false }
    channel := some { channel with status := .closed } }

def notifiedClosed (c : TcpClient) : TcpClient :=
  { c with notified := c.notified ++ [false] }

def expired (c : TcpClient) (i : Nat) : TcpClient :=
  { c with timers := c.timers.eraseIdx i }

def retrying (c : TcpClient) (reconn : ReconnSetting) : TcpClient :=
  { c with
    reconnSetting := some reconn.calcDelay
    losses := c.losses + 1
    timers := c.timers ++ [reconn.calcDelay.curDelay]
    delays := c.delays ++ [reconn.calcDelay.curDelay] }

def gaveUp (c : TcpClient) (reconn : ReconnSetting) : TcpClient :=
  { c with reconnSetting := some reconn, losses := c.losses + 1 }

def withoutReconnect (c : TcpClient) : TcpClient :=
  { c with reconnSetting := none }

/--
`startConnect` connects: with a new socket, or with the one that `createsocket` has made.
-/
inductive Ready (c : TcpClient) (connfd : Int) : Hio → Channel → Prop
  | fresh (hclosed : c.isClosed = true) (hfd : 0 ≤ connfd)
      : Ready c connfd ⟨connfd, true⟩ ⟨.opened, []⟩
  | prepared (channel : Channel) (hchannel : c.channel = some channel)
      (hstatus : channel.status = .opened) (hopened : c.io.opened = true)
      : Ready c connfd c.io channel

/--
`startConnect` does nothing: there is no new socket, or the channel is in use.
-/
inductive Idle (c : TcpClient) (connfd : Int) : Prop
  | failed (hclosed : c.isClosed = true) (hfd : connfd < 0)
  | busy (channel : Channel) (hchannel : c.channel = some channel)
      (hstatus : channel.status = .connecting ∨ channel.status = .connected)
      (hopened : c.io.opened = true)

-- What `startReconnect` does.
inductive Reconnects (c : TcpClient) : TcpClient → Prop
  | off (hreconn : c.reconnSetting = none) : Reconnects c c
  | retrying (reconn : ReconnSetting) (hreconn : c.reconnSetting = some reconn)
      (hretry : reconn.canRetry.2 = true) : Reconnects c (c.retrying reconn.canRetry.1)
  | gaveUp (reconn : ReconnSetting) (hreconn : c.reconnSetting = some reconn)
      (hretry : reconn.canRetry.2 = false) : Reconnects c (c.gaveUp reconn.canRetry.1)

/--
What the events do to the client.
-/
inductive Steps (c : TcpClient) : TcpClientEvent → TcpClient → Prop
  | notCreated (connfd : Int) (hclosed : c.isClosed = true) (hfd : connfd < 0)
      : Steps c (.createsocket connfd) c
  | created (connfd : Int) (hclosed : c.isClosed = true) (hfd : 0 ≤ connfd)
      : Steps c (.createsocket connfd) (c.created connfd)
  | notStarted (connfd : Int) (hidle : c.Idle connfd) : Steps c (.start connfd) c
  | started (connfd : Int) (io : Hio) (channel : Channel) (hready : c.Ready connfd io channel)
      : Steps c (.start connfd) (c.connecting io channel)
  | notRestarted (i : Nat) (connfd : Int) (hi : i < c.timers.length) (hidle : c.Idle connfd)
      : Steps c (.timeout i connfd) (c.expired i)
  | restarted (i : Nat) (connfd : Int) (io : Hio) (channel : Channel) (hi : i < c.timers.length)
      (hready : c.Ready connfd io channel)
      : Steps c (.timeout i connfd) ((c.expired i).connecting io channel)
  | connected (channel : Channel) (hchannel : c.channel = some channel)
      (hstatus : channel.status = .connecting) (hopened : c.io.opened = true)
      : Steps c .onConnect (c.connected channel)
  | lost (channel : Channel) (c' : TcpClient) (hchannel : c.channel = some channel)
      (hstatus : channel.status = .connecting ∨ channel.status = .connected)
      (hreconnects : Reconnects (c.closed channel).notifiedClosed c')
      : Steps c .onClose c'
  | notClosed (hnone : c.channel = none) : Steps c .closesocket c
  | closedBefore (channel : Channel) (hchannel : c.channel = some channel)
      (hstatus : channel.status.down = true)
      : Steps c .closesocket c.withoutReconnect
  | closedUnused (channel : Channel) (hchannel : c.channel = some channel)
      (hstatus : channel.status = .opened) (hcallbacks : c.callbacks = false)
      : Steps c .closesocket (c.closed channel).withoutReconnect
  | closedInUse (channel : Channel) (hchannel : c.channel = some channel)
      (hstatus : channel.status = .connecting ∨ channel.status = .connected)
      : Steps c .closesocket (c.closed channel).notifiedClosed.withoutReconnect
  | setReconnect (setting : Option ReconnSetting)
      : Steps c (.setReconnect setting) { c with reconnSetting := setting }

theorem startReconnect_reconnects (c : TcpClient) : Reconnects c c.startReconnect := by
  unfold startReconnect
  split
  . next reconn hreconn =>
    dsimp only
    split
    . next hretry => exact .retrying reconn hreconn hretry
    . next hretry => exact .gaveUp reconn hreconn (by simpa using hretry)
  . next hreconn => exact .off hreconn

theorem Wf.down_eq {c : TcpClient} (hwf : c.Wf) {channel : Channel}
    (hchannel : c.channel = some channel)
    : channel.status.down = !c.io.opened := by
  have hopened := hwf.opened
  simp only [status, hchannel, Option.map_some, Option.some.injEq, exists_eq_left'] at hopened
  cases hdown : channel.status.down with
  | true => simpa [hdown] using hopened
  | false => simpa [hdown] using hopened

theorem Wf.isOpened_eq {c : TcpClient} (hwf : c.Wf) {channel : Channel}
    (hchannel : c.channel = some channel)
    : channel.isOpened c.io = c.io.opened := by
  simp [Channel.isOpened, hwf.down_eq hchannel]

theorem Wf.isClosed_eq {c : TcpClient} (hwf : c.Wf) : c.isClosed = !c.io.opened := by
  unfold isClosed
  split
  . next channel hchannel => rw [hwf.isOpened_eq hchannel]
  . next hchannel =>
    have hopened := hwf.opened
    simp only [status, hchannel, Option.map_none, reduceCtorEq, false_and, exists_false,
      iff_false, Bool.not_eq_true] at hopened
    rw [hopened]
    rfl

theorem createsocket_eq (c : TcpClient) {connfd : Int} (hfd : 0 ≤ connfd)
    : c.createsocket connfd = c.created connfd := by
  have hnot : ¬ connfd < 0 := by omega
  unfold createsocket created
  rw [if_neg hnot]
  rfl

theorem createsocket_of_neg (c : TcpClient) {connfd : Int} (hfd : connfd < 0)
    : c.createsocket connfd = c := by
  unfold createsocket
  rw [if_pos hfd]

theorem startConnect_cases {c : TcpClient} (hwf : c.Wf) (connfd : Int)
    : (c.Idle connfd ∧ c.startConnect connfd = c) ∨
        ∃ io channel, c.Ready connfd io channel ∧
          c.startConnect connfd = c.connecting io channel := by
  unfold startConnect
  cases hclosed : c.isClosed with
  | true =>
    simp only [if_true]
    by_cases hfd : connfd < 0
    . left
      refine ⟨.failed hclosed hfd, ?_⟩
      rw [createsocket_of_neg c hfd]
      split
      . next channel hchannel =>
        have hdown := hwf.down_eq hchannel
        rw [← hwf.isClosed_eq, hclosed] at hdown
        have hstarted : channel.status.started = true := by
          cases hstatus : channel.status with
          | _ => simp_all [Status.down, Status.started]
        rw [if_pos hstarted]
      . rfl
    . right
      refine ⟨_, _, .fresh hclosed (by omega), ?_⟩
      rw [createsocket_eq c (by omega)]
      rfl
  | false =>
    have hopened : c.io.opened = true := by simpa [hwf.isClosed_eq] using hclosed
    simp only [Bool.false_eq_true, if_false]
    split
    . next channel hchannel =>
      have hdown := hwf.down_eq hchannel
      rw [hopened] at hdown
      cases hstatus : channel.status with
      | opened =>
        right
        exact ⟨_, _, .prepared channel hchannel hstatus hopened, rfl⟩
      | connecting => exact .inl ⟨.busy channel hchannel (.inl hstatus) hopened, rfl⟩
      | connected => exact .inl ⟨.busy channel hchannel (.inr hstatus) hopened, rfl⟩
      | disconnected => simp [hstatus, Status.down] at hdown
      | closed => simp [hstatus, Status.down] at hdown
    . next hchannel => simp [isClosed, hchannel] at hclosed

theorem handleClose_eq (c : TcpClient) (channel : Channel)
    : c.handleClose channel =
        if c.callbacks then
          (c.closed channel).notifiedClosed.startReconnect
        else
          c.closed channel := by
  rfl

theorem Wf.expired {c : TcpClient} (hwf : c.Wf) (i : Nat) : (c.expired i).Wf :=
  ⟨hwf.opened, hwf.callbacks⟩

theorem steps_timeout {c t : TcpClient} (hwf : c.Wf) {i : Nat} {connfd : Int}
    (h : c.timeout i connfd = some t)
    : Steps c (.timeout i connfd) t := by
  unfold timeout at h
  split at h
  . next hi =>
    simp only [Option.some.injEq] at h
    subst h
    rcases startConnect_cases (hwf.expired i) connfd with ⟨hidle, heq⟩ | ⟨io, channel, hready, heq⟩
    . rw [show startConnect { c with timers := c.timers.eraseIdx i } connfd = _ from heq]
      apply Steps.notRestarted i connfd hi
      cases hidle with
      | failed hclosed hfd => exact .failed hclosed hfd
      | busy channel hchannel hstatus hopened => exact .busy channel hchannel hstatus hopened
    . rw [show startConnect { c with timers := c.timers.eraseIdx i } connfd = _ from heq]
      apply Steps.restarted i connfd io channel hi
      cases hready with
      | fresh hclosed hfd => exact .fresh hclosed hfd
      | prepared _ hchannel hstatus hopened => exact .prepared channel hchannel hstatus hopened
  . simp at h

theorem steps_onConnect {c t : TcpClient} (h : c.onConnect = some t) : Steps c .onConnect t := by
  unfold onConnect at h
  split at h
  . next channel hchannel =>
    split at h
    . next hboth =>
      simp only [Bool.and_eq_true, decide_eq_true_eq] at hboth
      simp only [Option.some.injEq] at h
      have hconnected : ({ channel with status := .connected } : Channel).isConnected c.io = true := by
        simp [Channel.isConnected, Channel.isOpened, Status.down, hboth.right]
      simp only [callOnConnection, hconnected] at h
      exact h ▸ .connected channel hchannel hboth.left hboth.right
    . simp at h
  . simp at h

theorem steps_onClose {c t : TcpClient} (hwf : c.Wf) (h : c.onClose = some t)
    : Steps c .onClose t := by
  unfold onClose at h
  split at h
  . next channel hchannel =>
    split at h
    . next hboth =>
      simp only [Bool.and_eq_true] at hboth
      have hstatus : channel.status = .connecting ∨ channel.status = .connected := by
        have hopened := hboth.right
        simp only [Channel.isOpened, Bool.and_eq_true] at hopened
        cases hs : channel.status with
        | _ => simp_all [Status.down, Status.started]
      have hcallbacks : c.callbacks = true := by
        rw [hwf.isOpened_eq hchannel] at hboth
        rw [hwf.callbacks hboth.right, status, hchannel]
        cases hstatus with
        | inl h => simp [h]
        | inr h => simp [h]
      simp only [handleClose_eq, hcallbacks, if_true, Option.some.injEq] at h
      exact h ▸ .lost channel _ hchannel hstatus (startReconnect_reconnects _)
    . simp at h
  . simp at h

theorem steps_closesocket {c : TcpClient} (hwf : c.Wf) : Steps c .closesocket c.closesocket := by
  unfold closesocket
  split
  . next channel hchannel =>
    dsimp only
    have hdown := hwf.down_eq hchannel
    split
    . next hopened =>
      rw [hwf.isOpened_eq hchannel] at hopened
      rw [hopened] at hdown
      have hcallbacks := hwf.callbacks hopened
      simp only [status, hchannel, Option.map_some, ne_eq, Option.some.injEq] at hcallbacks
      rw [handleClose_eq]
      cases hstatus : channel.status with
      | opened =>
        have hunset : c.callbacks = false := by simpa [hstatus] using hcallbacks
        rw [if_neg (by simp [hunset])]
        exact .closedUnused channel hchannel hstatus hunset
      | connecting =>
        have hset : c.callbacks = true := by simpa [hstatus] using hcallbacks
        rw [if_pos hset]
        exact .closedInUse channel hchannel (.inl hstatus)
      | connected =>
        have hset : c.callbacks = true := by simpa [hstatus] using hcallbacks
        rw [if_pos hset]
        exact .closedInUse channel hchannel (.inr hstatus)
      | disconnected => simp [hstatus, Status.down] at hdown
      | closed => simp [hstatus, Status.down] at hdown
    . next hopened =>
      rw [hwf.isOpened_eq hchannel] at hopened
      exact .closedBefore channel hchannel (by simpa [hopened] using hdown)
  . next hchannel => exact .notClosed hchannel

theorem steps_of_step {c t : TcpClient} {e : TcpClientEvent} (hwf : c.Wf) (h : step c e = some t)
    : Steps c e t := by
  cases e with
  | createsocket connfd =>
    simp only [step] at h
    split at h
    . next hclosed =>
      simp only [Option.some.injEq] at h
      subst h
      by_cases hfd : connfd < 0
      . rw [createsocket_of_neg c hfd]
        exact .notCreated connfd hclosed hfd
      . rw [createsocket_eq c (by omega)]
        exact .created connfd hclosed (by omega)
    . simp at h
  | start connfd =>
    simp only [step, Option.some.injEq] at h
    subst h
    rcases startConnect_cases hwf connfd with ⟨hidle, heq⟩ | ⟨io, channel, hready, heq⟩
    . rw [heq]
      exact .notStarted connfd hidle
    . rw [heq]
      exact .started connfd io channel hready
  | onConnect => exact steps_onConnect h
  | onClose => exact steps_onClose hwf h
  | timeout i connfd => exact steps_timeout hwf h
  | closesocket =>
    simp only [step, Option.some.injEq] at h
    subst h
    exact steps_closesocket hwf
  | setReconnect setting =>
    simp only [step, Option.some.injEq] at h
    subst h
    exact .setReconnect setting

theorem Ready.opened {c : TcpClient} {connfd : Int} {io : Hio} {channel : Channel}
    (h : c.Ready connfd io channel)
    : io.opened = true := by
  cases h with
  | fresh hclosed hfd => rfl
  | prepared _ hchannel hstatus hopened => exact hopened

theorem wf_connecting (c : TcpClient) {io : Hio} (hio : io.opened = true) (channel : Channel)
    : (c.connecting io channel).Wf where
  opened := by simp [connecting, status, hio, Status.down]
  callbacks := by simp [connecting, status]

theorem wf_closed (c : TcpClient) (channel : Channel) : (c.closed channel).Wf where
  opened := by simp [closed, status, Status.down]
  callbacks := by simp [closed]

theorem Reconnects.wf {c t : TcpClient} (h : Reconnects c t) (hwf : c.Wf) : t.Wf := by
  cases h with
  | off hreconn => exact hwf
  | retrying reconn hreconn hretry => exact ⟨hwf.opened, hwf.callbacks⟩
  | gaveUp reconn hreconn hretry => exact ⟨hwf.opened, hwf.callbacks⟩

theorem Wf.of_steps {c t : TcpClient} {e : TcpClientEvent} (hwf : c.Wf) (h : Steps c e t)
    : t.Wf := by
  cases h with
  | notCreated connfd hclosed hfd => exact hwf
  | created connfd hclosed hfd =>
    constructor
    . simp [TcpClient.created, status, Status.down]
    . simp [TcpClient.created, status]
  | notStarted connfd hidle => exact hwf
  | started connfd io channel hready => exact wf_connecting c hready.opened channel
  | notRestarted i connfd hi hidle => exact hwf.expired i
  | restarted i connfd io channel hi hready => exact wf_connecting _ hready.opened channel
  | connected channel hchannel hstatus hopened =>
    have hcallbacks := hwf.callbacks hopened
    constructor
    . simp [TcpClient.connected, status, Status.down, hopened]
    . simpa [TcpClient.connected, status, hchannel, hstatus, hopened] using hcallbacks
  | lost channel c' hchannel hstatus hreconnects =>
    have hclosed := wf_closed c channel
    exact hreconnects.wf ⟨hclosed.opened, hclosed.callbacks⟩
  | notClosed hnone => exact hwf
  | closedBefore channel hchannel hstatus => exact ⟨hwf.opened, hwf.callbacks⟩
  | closedUnused channel hchannel hstatus hcallbacks =>
    have hclosed := wf_closed c channel
    exact ⟨hclosed.opened, hclosed.callbacks⟩
  | closedInUse channel hchannel hstatus =>
    have hclosed := wf_closed c channel
    exact ⟨hclosed.opened, hclosed.callbacks⟩
  | setReconnect setting => exact ⟨hwf.opened, hwf.callbacks⟩

theorem wf_new (setting : Option ReconnSetting) : (new setting).Wf where
  opened := by simp [new, status]
  callbacks := by simp [new]

/--
The invariant rule of the client: what every event that meets `d` keeps.
-/
theorem Wf.inv_of_run {d : TcpClientEvent → Prop} {I : TcpClient → Prop}
    (hstep : ∀ {c e t}, c.Wf → I c → d e → Steps c e t → I t) {es : List TcpClientEvent}
    {c t : TcpClient} (hwf : c.Wf) (hc : I c) (hes : ∀ e, e ∈ es → d e)
    (hrun : run step c es = some t)
    : t.Wf ∧ I t := by
  have hkeep : ∀ {c e t}, c.Wf ∧ I c → d e → step c e = some t → t.Wf ∧ I t := by
    intro c e t hc he h
    have hsteps := steps_of_step hc.left h
    exact ⟨hc.left.of_steps hsteps, hstep hc.left hc.right he hsteps⟩
  apply Transition.inv_of_run (c := fun _ e => d e) hkeep ⟨hwf, hc⟩ _ hrun
  apply Meets.of_forall_mem
  intro e he _
  exact hes e he

end TcpClient

end Libhv
