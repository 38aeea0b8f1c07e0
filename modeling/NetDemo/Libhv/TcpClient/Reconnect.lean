import NetDemo.Libhv.TcpClient.Lemmas
import Mathlib.Data.List.Chain
import Mathlib.Order.Bounds.Basic

/-!
This module contains what holds in every run of the client: whether it goes on trying, how many
attempts are under way at a time, what the user is told, and what `closesocket` stops.
-/

namespace Libhv

namespace TcpClient

open Transition

def inUse (c : TcpClient) : Bool :=
  c.status = some .connecting || c.status = some .connected

theorem Wf.opened_of_inUse {c : TcpClient} (hwf : c.Wf) (h : c.inUse = true)
    : c.io.opened = true := by
  rw [hwf.opened]
  simp only [inUse, Bool.or_eq_true, decide_eq_true_eq] at h
  cases h with
  | inl h => exact ⟨_, h, rfl⟩
  | inr h => exact ⟨_, h, rfl⟩

theorem inUse_of_status {c : TcpClient} {channel : Channel} (hchannel : c.channel = some channel)
    (hstatus : channel.status = .connecting ∨ channel.status = .connected)
    : c.inUse = true := by
  simpa [inUse, status, hchannel] using hstatus

theorem not_inUse_of_isClosed {c : TcpClient} (hwf : c.Wf) (hclosed : c.isClosed = true)
    : c.inUse = false := by
  rw [hwf.isClosed_eq, Bool.not_eq_true'] at hclosed
  rw [Bool.eq_false_iff]
  intro h
  simp [hwf.opened_of_inUse h] at hclosed

theorem Ready.not_inUse {c : TcpClient} (hwf : c.Wf) {connfd : Int} {io : Hio} {channel : Channel}
    (h : c.Ready connfd io channel)
    : c.inUse = false := by
  cases h with
  | fresh hclosed hfd => exact not_inUse_of_isClosed hwf hclosed
  | prepared _ hchannel hstatus hopened => simp [inUse, status, hchannel, hstatus]

@[simp]
theorem inUse_connecting (c : TcpClient) (io : Hio) (channel : Channel)
    : (c.connecting io channel).inUse = true := by
  simp [inUse, status, connecting]

@[simp]
theorem inUse_connected (c : TcpClient) (channel : Channel)
    : (c.connected channel).inUse = true := by
  simp [inUse, status, connected]

@[simp]
theorem inUse_closed (c : TcpClient) (channel : Channel) : (c.closed channel).inUse = false := by
  simp [inUse, status, closed]

-- What `startReconnect` leaves alone.
theorem Reconnects.status_eq {c t : TcpClient} (h : Reconnects c t) : t.status = c.status := by
  cases h with
  | off hreconn => rfl
  | retrying reconn hreconn hretry => rfl
  | gaveUp reconn hreconn hretry => rfl

theorem Reconnects.notified_eq {c t : TcpClient} (h : Reconnects c t)
    : t.notified = c.notified := by
  cases h with
  | off hreconn => rfl
  | retrying reconn hreconn hretry => rfl
  | gaveUp reconn hreconn hretry => rfl

theorem Reconnects.length_timers_le {c t : TcpClient} (h : Reconnects c t)
    : t.timers.length ≤ c.timers.length + 1 := by
  cases h with
  | off hreconn => exact Nat.le_succ _
  | retrying reconn hreconn hretry => simp [TcpClient.retrying]
  | gaveUp reconn hreconn hretry => exact Nat.le_succ _

-- The sockets of the later attempts can be created, and the program leaves the client alone.
def Undisturbed (e : TcpClientEvent) : Prop :=
  match e with
  | .timeout _ connfd => 0 ≤ connfd
  | .createsocket _ | .start _ | .onConnect | .onClose => True
  | .closesocket | .setReconnect _ => False

structure Persistent (c : TcpClient) : Prop where
  setting : ∃ reconn, c.reconnSetting = some reconn ∧ reconn.maxRetryCnt = infinite
  tries : 0 < c.connects → c.inUse = true ∨ c.timers ≠ []

theorem Persistent.of_steps {c t : TcpClient} {e : TcpClientEvent} (hwf : c.Wf)
    (hc : c.Persistent) (he : Undisturbed e) (h : Steps c e t)
    : t.Persistent := by
  have ⟨⟨reconn, hreconn, hmax⟩, htries⟩ := hc
  cases h with
  | notCreated connfd hclosed hfd => exact hc
  | created connfd hclosed hfd =>
    refine ⟨⟨reconn, hreconn, hmax⟩, ?_⟩
    intro hpos
    have htry := htries hpos
    rw [not_inUse_of_isClosed hwf hclosed] at htry
    right
    simpa [created] using htry
  | notStarted connfd hidle => exact hc
  | started connfd io channel hready => exact ⟨⟨reconn, hreconn, hmax⟩, fun _ => .inl (by simp)⟩
  | notRestarted i connfd hi hidle =>
    refine ⟨⟨reconn, hreconn, hmax⟩, fun _ => .inl ?_⟩
    cases hidle with
    | failed hclosed hfd =>
      simp only [Undisturbed] at he
      omega
    | busy channel hchannel hstatus hopened => exact inUse_of_status hchannel hstatus
  | restarted i connfd io channel hi hready =>
    exact ⟨⟨reconn, hreconn, hmax⟩, fun _ => .inl (by simp)⟩
  | connected channel hchannel hstatus hopened =>
    refine ⟨⟨reconn.reset, by simp [connected, hreconn], hmax⟩, fun _ => .inl (by simp)⟩
  | lost channel _ hchannel hstatus hreconnects =>
    have hretry : reconn.canRetry.2 = true := by simp [ReconnSetting.canRetry, hmax]
    have hsetting : (c.closed channel).notifiedClosed.reconnSetting = some reconn := hreconn
    cases hreconnects with
    | off hnone => simp [hnone] at hsetting
    | retrying reconn' hreconn' _ =>
      rw [hsetting, Option.some.injEq] at hreconn'
      subst hreconn'
      exact ⟨⟨_, rfl, hmax⟩, fun _ => .inr (by simp [retrying])⟩
    | gaveUp reconn' hreconn' hno =>
      rw [hsetting, Option.some.injEq] at hreconn'
      rw [← hreconn', hretry] at hno
      simp at hno
  | notClosed hnone => exact absurd he id
  | closedBefore channel hchannel hstatus => exact absurd he id
  | closedUnused channel hchannel hstatus hcallbacks => exact absurd he id
  | closedInUse channel hchannel hstatus => exact absurd he id
  | setReconnect setting => exact absurd he id

/--
A client without a limit on the retries never gives up: once it has been started, it is connecting
or connected or one of its timers will try again, in every state of every run.
-/
theorem inUse_or_timers_of_run (reconn : ReconnSetting) (hmax : reconn.maxRetryCnt = infinite)
    (es : List TcpClientEvent) (hes : ∀ e, e ∈ es → Undisturbed e) (c : TcpClient)
    (hrun : run step (new (some reconn)) es = some c) (hconnects : 0 < c.connects)
    : c.inUse = true ∨ c.timers ≠ [] := by
  have hpersistent : c.Persistent := by
    apply And.right
    apply (wf_new (some reconn)).inv_of_run (d := Undisturbed) _ _ hes hrun
    . intro c e t hwf hc he h
      exact hc.of_steps hwf he h
    . exact ⟨⟨reconn, rfl, hmax⟩, by simp [new]⟩
  exact hpersistent.tries hconnects

def unlimited : ReconnSetting :=
  ReconnSetting.init

theorem inUse_or_timers_of_run_unlimited
    : ∃ c, run step (new (some unlimited)) [.createsocket 3, .start 3, .onClose] = some c ∧
        (c.inUse = true ∨ c.timers ≠ []) := by
  refine ⟨_, rfl, ?_⟩
  apply inUse_or_timers_of_run unlimited rfl [.createsocket 3, .start 3, .onClose] _ _ rfl
  . decide
  . simp [Undisturbed]

-- `start` is called only when no timer is going to call `startConnect`, or when it does nothing.
def StartsOnce (c : TcpClient) (e : TcpClientEvent) : Prop :=
  ∀ connfd, e = .start connfd →
    c.timers = [] ∨ c.inUse = true ∨ (c.isClosed = true ∧ connfd < 0)

def OneAttempt (c : TcpClient) : Prop :=
  c.timers.length + c.inUse.toNat ≤ 1

theorem OneAttempt.of_steps {c t : TcpClient} {e : TcpClientEvent} (hwf : c.Wf)
    (hc : c.OneAttempt) (he : c.StartsOnce e) (h : Steps c e t)
    : t.OneAttempt := by
  unfold OneAttempt at hc ⊢
  cases h with
  | notCreated connfd hclosed hfd => exact hc
  | created connfd hclosed hfd =>
    have hfalse : (c.created connfd).inUse = false := by simp [inUse, status, created]
    rw [hfalse]
    exact (Nat.le_add_right _ _).trans hc
  | notStarted connfd hidle => exact hc
  | started connfd io channel hready =>
    have hfalse := hready.not_inUse hwf
    rcases he connfd rfl with htimers | htrue | ⟨hclosed, hneg⟩
    . simp [connecting, htimers, inUse, status]
    . simp [hfalse] at htrue
    . cases hready with
      | fresh _ hfd => omega
      | prepared _ hchannel _ hopened =>
        rw [hwf.isClosed_eq, hopened] at hclosed
        simp at hclosed
  | notRestarted i connfd hi hidle =>
    have hlength := List.length_eraseIdx_of_lt hi
    have hsame : (c.expired i).inUse = c.inUse := rfl
    rw [hsame]
    simp only [expired]
    omega
  | restarted i connfd io channel hi hready =>
    have hlength := List.length_eraseIdx_of_lt hi
    simp only [inUse_connecting, Bool.toNat_true]
    simp only [connecting, expired]
    omega
  | connected channel hchannel hstatus hopened =>
    have htrue := inUse_of_status hchannel (.inl hstatus)
    rw [htrue] at hc
    rw [inUse_connected]
    exact hc
  | lost channel _ hchannel hstatus hreconnects =>
    have htrue := inUse_of_status hchannel hstatus
    rw [htrue, Bool.toNat_true] at hc
    have hfalse : t.inUse = false := by
      unfold inUse
      rw [hreconnects.status_eq]
      exact inUse_closed c channel
    have hle := hreconnects.length_timers_le
    simp only [notifiedClosed, closed] at hle
    rw [hfalse, Bool.toNat_false]
    omega
  | notClosed hnone => exact hc
  | closedBefore channel hchannel hstatus => exact hc
  | closedUnused channel hchannel hstatus hcallbacks =>
    have hfalse : (c.closed channel).withoutReconnect.inUse = false := inUse_closed c channel
    rw [hfalse]
    exact (Nat.le_add_right _ _).trans hc
  | closedInUse channel hchannel hstatus =>
    have hfalse : (c.closed channel).notifiedClosed.withoutReconnect.inUse = false :=
      inUse_closed c channel
    rw [hfalse]
    exact (Nat.le_add_right _ _).trans hc
  | setReconnect setting => exact hc

theorem StartsOnce.of_oneAttempt {c t : TcpClient} {e : TcpClientEvent} (h : Steps c e t)
    (ht : t.OneAttempt)
    : c.StartsOnce e := by
  rintro connfd rfl
  cases h with
  | notStarted _ hidle =>
    right
    cases hidle with
    | failed hclosed hfd => exact .inr ⟨hclosed, hfd⟩
    | busy channel hchannel hstatus hopened => exact .inl (inUse_of_status hchannel hstatus)
  | started _ io channel hready =>
    left
    unfold OneAttempt at ht
    rw [inUse_connecting, Bool.toNat_true] at ht
    simp only [connecting] at ht
    rw [← List.length_eq_zero_iff]
    omega

/--
At no time in a run there is more than one attempt under way, counting the connection that is being
made or used and the timers that will make one, exactly if `start` is not called to connect while a
timer is pending.
-/
theorem oneAttempt_iff_startsOnce (setting : Option ReconnSetting) (es : List TcpClientEvent)
    (c : TcpClient) (hrun : run step (new setting) es = some c)
    : Along step OneAttempt (new setting) es ↔ Meets step StartsOnce (new setting) es := by
  apply along_iff_meets (I := fun c => c.Wf ∧ c.OneAttempt) _ _ _ _ hrun
  . intro c hc
    exact hc.right
  . intro c e t hc he h
    have hsteps := steps_of_step hc.left h
    exact ⟨hc.left.of_steps hsteps, hc.right.of_steps hc.left he hsteps⟩
  . intro c e t hc h ht
    exact StartsOnce.of_oneAttempt (steps_of_step hc.left h) ht
  . exact ⟨wf_new setting, by simp [OneAttempt, new, inUse, status]⟩

-- The program starts the client itself while the timer of the reconnect is running.
theorem not_oneAttempt_startedTwice
    : ¬ Along step OneAttempt (new (some unlimited))
        ([.createsocket 3, .start 3, .onClose] ++ [.start 4]) := by
  rw [oneAttempt_iff_startsOnce (some unlimited) _ _ rfl, meets_concat rfl]
  rintro ⟨_, hstarts⟩
  have h := hstarts 4 rfl
  revert h
  decide

structure Reports (c : TcpClient) : Prop where
  chain : c.notified.IsChain fun a b => ¬ (a = true ∧ b = true)
  last : c.notified.getLast? = some true ↔ c.status = some .connected

theorem Reports.of_status {c t : TcpClient} (hc : c.Reports) (hnotified : t.notified = c.notified)
    (hbefore : c.status ≠ some .connected) (hafter : t.status ≠ some .connected)
    : t.Reports := by
  have ⟨hchain, hlast⟩ := hc
  constructor
  . rwa [hnotified]
  . rw [hnotified, hlast]
    exact ⟨fun h => absurd h hbefore, fun h => absurd h hafter⟩

theorem Reports.closed {c t : TcpClient} (hc : c.Reports)
    (hnotified : t.notified = c.notified ++ [false]) (hstatus : t.status = some .closed)
    : t.Reports := by
  constructor
  . rw [hnotified, List.isChain_append]
    exact ⟨hc.chain, by simp, by simp⟩
  . rw [hnotified, hstatus]
    simp

theorem Ready.not_connected {c : TcpClient} (hwf : c.Wf) {connfd : Int} {io : Hio}
    {channel : Channel} (h : c.Ready connfd io channel)
    : c.status ≠ some .connected := by
  have hfalse := h.not_inUse hwf
  intro hstatus
  simp [inUse, hstatus] at hfalse

theorem Reports.of_steps {c t : TcpClient} {e : TcpClientEvent} (hwf : c.Wf) (hc : c.Reports)
    (h : Steps c e t)
    : t.Reports := by
  cases h with
  | notCreated connfd hclosed hfd => exact hc
  | created connfd hclosed hfd =>
    refine hc.of_status rfl ?_ ?_
    . intro hstatus
      have hfalse := not_inUse_of_isClosed hwf hclosed
      simp [inUse, hstatus] at hfalse
    . simp [created, status]
  | notStarted connfd hidle => exact hc
  | started connfd io channel hready =>
    refine hc.of_status rfl ?_ ?_
    . exact hready.not_connected hwf
    . simp [connecting, status]
  | notRestarted i connfd hi hidle => exact ⟨hc.chain, hc.last⟩
  | restarted i connfd io channel hi hready =>
    refine hc.of_status rfl ?_ ?_
    . exact hready.not_connected hwf
    . simp [connecting, status]
  | connected channel hchannel hstatus hopened =>
    have hnot : c.notified.getLast? ≠ some true := by
      rw [ne_eq, hc.last]
      simp [status, hchannel, hstatus]
    constructor
    . simp only [TcpClient.connected, List.isChain_append]
      refine ⟨hc.chain, by simp, ?_⟩
      intro a ha b _ hboth
      exact hnot (hboth.left ▸ ha)
    . simp [TcpClient.connected, status]
  | lost channel _ hchannel hstatus hreconnects =>
    apply hc.closed
    . rw [hreconnects.notified_eq]
      rfl
    . rw [hreconnects.status_eq]
      rfl
  | notClosed hnone => exact hc
  | closedBefore channel hchannel hstatus => exact ⟨hc.chain, hc.last⟩
  | closedUnused channel hchannel hstatus hcallbacks =>
    refine hc.of_status rfl ?_ ?_
    . simp [status, hchannel, hstatus]
    . simp [withoutReconnect, TcpClient.closed, status]
  | closedInUse channel hchannel hstatus => exact hc.closed rfl rfl
  | setReconnect setting => exact ⟨hc.chain, hc.last⟩

/--
In every run `onConnection` is told of a disconnect between any two connects, and the last thing it
was told is a connect exactly while the client is connected.
-/
theorem notified_of_run (setting : Option ReconnSetting) (es : List TcpClientEvent) (c : TcpClient)
    (hrun : run step (new setting) es = some c)
    : c.notified.IsChain (fun a b => ¬ (a = true ∧ b = true)) ∧
        (c.notified.getLast? = some true ↔ c.status = some .connected) := by
  have hreports : c.Reports := by
    apply And.right
    apply (wf_new setting).inv_of_run (d := fun _ => True) _ _ _ hrun
    . intro c e t hwf hc _ h
      exact hc.of_steps hwf h
    . exact ⟨by simp [new], by simp [new, status]⟩
    . simp
  exact ⟨hreports.chain, hreports.last⟩

-- The setting of the demo after one reconnect.
def reconnected : TcpClient where
  io := ⟨4, true⟩
  channel := some ⟨.connected, []⟩
  callbacks := true
  reconnSetting := some unlimited
  timers := []
  connects := 2
  notified := [true, false, true]
  losses := 0
  delays := []

theorem notified_of_run_reconnected
    : reconnected.notified.getLast? = some true ↔ reconnected.status = some .connected :=
  (notified_of_run (some unlimited)
    [.createsocket 3, .start 3, .onConnect, .onClose, .timeout 0 4, .onConnect] reconnected
    (by decide)).right

/-!
What `closesocket` does not stop: it frees the setting, but not the timers that have been started.
-/

-- What still happens when the program does nothing any more.
def FromLoop (e : TcpClientEvent) : Prop :=
  match e with
  | .onConnect | .onClose | .timeout _ _ => True
  | .createsocket _ | .start _ | .closesocket | .setReconnect _ => False

structure Stopped (n : Nat) (c : TcpClient) : Prop where
  setting : c.reconnSetting = none
  le : c.connects + c.timers.length ≤ n

theorem Stopped.of_steps {n : Nat} {c t : TcpClient} {e : TcpClientEvent} (hc : c.Stopped n)
    (he : FromLoop e) (h : Steps c e t)
    : t.Stopped n := by
  have ⟨hsetting, hle⟩ := hc
  cases h with
  | notRestarted i connfd hi hidle =>
    have hlength := List.length_eraseIdx_of_lt hi
    refine ⟨hsetting, ?_⟩
    simp only [expired]
    omega
  | restarted i connfd io channel hi hready =>
    have hlength := List.length_eraseIdx_of_lt hi
    refine ⟨hsetting, ?_⟩
    simp only [connecting, expired]
    omega
  | connected channel hchannel hstatus hopened =>
    exact ⟨by simp [TcpClient.connected, hsetting], hle⟩
  | lost channel _ hchannel hstatus hreconnects =>
    have hnone : (c.closed channel).notifiedClosed.reconnSetting = none := hsetting
    cases hreconnects with
    | off _ => exact ⟨hsetting, hle⟩
    | retrying reconn hreconn _ => simp [hnone] at hreconn
    | gaveUp reconn hreconn _ => simp [hnone] at hreconn
  | _ => exact absurd he id

theorem closesocket_keeps {c : TcpClient} (hwf : c.Wf)
    : c.closesocket.connects = c.connects ∧ c.closesocket.timers = c.timers := by
  have h := steps_closesocket hwf
  generalize c.closesocket = t at h
  cases h with
  | notClosed hnone => exact ⟨rfl, rfl⟩
  | closedBefore channel hchannel hstatus => exact ⟨rfl, rfl⟩
  | closedUnused channel hchannel hstatus hcallbacks => exact ⟨rfl, rfl⟩
  | closedInUse channel hchannel hstatus => exact ⟨rfl, rfl⟩

theorem reconnSetting_closesocket {c : TcpClient} (hwf : c.Wf)
    (hchannel : c.channel.isSome = true)
    : c.closesocket.reconnSetting = none := by
  have h := steps_closesocket hwf
  generalize c.closesocket = t at h
  cases h with
  | notClosed hnone => simp [hnone] at hchannel
  | closedBefore channel hchannel hstatus => rfl
  | closedUnused channel hchannel hstatus hcallbacks => rfl
  | closedInUse channel hchannel hstatus => rfl

theorem isClosed_closesocket {c : TcpClient} (hwf : c.Wf) : c.closesocket.isClosed = true := by
  have hwf' := hwf.of_steps (steps_closesocket hwf)
  rw [hwf'.isClosed_eq]
  have h := steps_closesocket hwf
  generalize c.closesocket = t at h
  cases h with
  | notClosed hnone =>
    rw [← hwf.isClosed_eq]
    simp [isClosed, hnone]
  | closedBefore channel hchannel hstatus =>
    have hdown := hwf.down_eq hchannel
    rw [hstatus] at hdown
    exact hdown.symm
  | closedUnused channel hchannel hstatus hcallbacks => rfl
  | closedInUse channel hchannel hstatus => rfl

-- A timer runs out, and the connection that it makes is closed again.
theorem exists_run_timeout {c : TcpClient} (hwf : c.Wf) (hclosed : c.isClosed = true)
    (hsetting : c.reconnSetting = none) (hpos : 0 < c.timers.length)
    : ∃ t, run step c [.timeout 0 3, .onClose] = some t ∧ t.Wf ∧ t.isClosed = true ∧
        t.reconnSetting = none ∧ t.connects = c.connects + 1 ∧
        t.timers.length + 1 = c.timers.length := by
  have htimeout : step c (.timeout 0 3) =
      some ((c.expired 0).connecting ⟨3, true⟩ ⟨.opened, []⟩) := by
    have hclosed' : isClosed { c with timers := c.timers.eraseIdx 0 } = true := hclosed
    simp only [step, timeout, hpos, if_true, startConnect, hclosed', createsocket_eq _
      (by decide : (0 : Int) ≤ 3)]
    rfl
  have hwf' := hwf.of_steps (steps_of_step hwf htimeout)
  have hclose : step ((c.expired 0).connecting ⟨3, true⟩ ⟨.opened, []⟩) .onClose =
      some (((c.expired 0).connecting ⟨3, true⟩ ⟨.opened, []⟩).closed
        ⟨.connecting, []⟩).notifiedClosed := by
    simp only [step, onClose, connecting]
    simp only [Status.started, Channel.isOpened, Status.down, handleClose_eq, startReconnect,
      closed, notifiedClosed, expired, hsetting]
    rfl
  have hwf'' := hwf'.of_steps (steps_of_step hwf' hclose)
  refine ⟨_, ?_, hwf'', ?_, hsetting, rfl, ?_⟩
  . simp [run_cons_eq_some, htimeout, hclose]
  . rw [hwf''.isClosed_eq]
    rfl
  . simp only [notifiedClosed, closed, connecting, expired, List.length_eraseIdx_of_lt hpos]
    omega

theorem exists_run_timeouts
    : ∀ {n : Nat} {c : TcpClient}, c.Wf → c.isClosed = true → c.reconnSetting = none →
        c.timers.length = n →
          ∃ fs t, (∀ e, e ∈ fs → FromLoop e) ∧ run step c fs = some t ∧
            t.connects = c.connects + n := by
  intro n
  induction n with
  | zero =>
    intro c _ _ _ _
    exact ⟨[], c, by simp, rfl, rfl⟩
  | succ n ih =>
    intro c hwf hclosed hsetting hlength
    rcases exists_run_timeout hwf hclosed hsetting (by omega) with
      ⟨u, hrun, hwf', hclosed', hsetting', hconnects, hlength'⟩
    rcases ih hwf' hclosed' hsetting' (by omega) with ⟨fs, t, hfs, hrun', hconnects'⟩
    refine ⟨[.timeout 0 3, .onClose] ++ fs, t, ?_, ?_, by omega⟩
    . intro e he
      simp only [List.cons_append, List.nil_append, List.mem_cons] at he
      rcases he with rfl | rfl | he
      . trivial
      . trivial
      . exact hfs e he
    . rw [run_append, hrun]
      exact hrun'

/--
`closesocket` ends the reconnects, but not the timers that are pending when it is called: each of
them may still open a connection, and no more connections than that are made.
-/
theorem isGreatest_connects_after_closesocket (setting : Option ReconnSetting)
    (es : List TcpClientEvent) (c : TcpClient) (hrun : run step (new setting) es = some c)
    (hchannel : c.channel.isSome = true)
    : IsGreatest
        {n | ∃ fs t, (∀ e, e ∈ fs → FromLoop e) ∧ run step c.closesocket fs = some t ∧
          t.connects = n}
        (c.connects + c.timers.length) := by
  have hwf : c.Wf := by
    apply And.left
    apply (wf_new setting).inv_of_run (d := fun _ => True) (I := fun _ => True) _ trivial _ hrun
    . simp
    . simp
  have hwf' := hwf.of_steps (steps_closesocket hwf)
  have ⟨hconnects, htimers⟩ := closesocket_keeps hwf
  have hsetting := reconnSetting_closesocket hwf hchannel
  constructor
  . have hlength : c.closesocket.timers.length = c.timers.length := by rw [htimers]
    rcases exists_run_timeouts hwf' (isClosed_closesocket hwf) hsetting hlength with
      ⟨fs, t, hfs, hrun', ht⟩
    exact ⟨fs, t, hfs, hrun', by rw [ht, hconnects]⟩
  . rintro n ⟨fs, t, hfs, hrun', hn⟩
    have hstopped : c.closesocket.Stopped (c.connects + c.timers.length) :=
      ⟨hsetting, by rw [hconnects, htimers]⟩
    have ht : t.Stopped (c.connects + c.timers.length) := by
      apply And.right
      apply hwf'.inv_of_run (d := FromLoop) _ hstopped hfs hrun'
      intro c e t _ hc he h
      exact hc.of_steps he h
    have := ht.le
    omega

-- The client is closed for good while it waits for its first reconnect.
theorem isGreatest_connects_waiting
    : ∃ c, run step (new (some unlimited)) [.createsocket 3, .start 3, .onClose] = some c ∧
        IsGreatest
          {n | ∃ fs t, (∀ e, e ∈ fs → FromLoop e) ∧ run step c.closesocket fs = some t ∧
            t.connects = n}
          2 :=
  ⟨_, rfl, isGreatest_connects_after_closesocket (some unlimited)
    [.createsocket 3, .start 3, .onClose] _ rfl rfl⟩

end TcpClient

end Libhv
