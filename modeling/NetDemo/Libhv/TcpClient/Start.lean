import NetDemo.Libhv.EventLoopThread
import NetDemo.Libhv.TcpClient.Reconnect

/-!
This module contains the `TcpClient` of libhv together with its thread. `start` gives the thread the
first `startConnect` as its `pre`, and a `pre` that does not return 0 stops the loop. `closesocket`,
a later `setReconnect` and what `hloop_run` still calls after `hloop_stop` are left out.
-/

namespace Libhv

inductive ClientFunctor where
  | pre
  | startConnect
  deriving DecidableEq, Repr

structure ClientThread where
  client : TcpClient
  thread : EventLoopThread ClientFunctor
  -- History: what the `startConnect` of `pre` has returned.
  firstResult : Option Int
  deriving DecidableEq, Repr

-- `connfd` and `hioConnect` are what `::socket` and `hio_connect` return.
inductive ClientThreadEvent where
  | createsocket (connfd : Int)
  | start
  | thread (connfd hioConnect : Int)
  | loop (e : TcpClientEvent)
  deriving DecidableEq, Repr

def TcpClient.startConnectResult (c : TcpClient) (connfd hioConnect : Int) : Int :=
  if c.isClosed ∧ connfd < 0 then
    -2
  else
    let c := if c.isClosed then c.createsocket connfd else c
    match c.channel with
    | some channel => if channel.status.started then -1 else hioConnect
    | none => -1

namespace ClientThread

open Transition EventLoopThread

def new (setting : Option ReconnSetting) : ClientThread where
  client := .new setting
  thread := .new
  firstResult := none

-- A thread that has ended can still be joined: to replace it ends the program.
def start (s : ClientThread) : Option ClientThread :=
  if s.thread.loopStatus = .running then
    some { s with thread := s.thread.queueInLoop .startConnect }
  else if s.thread.status = .stopped then
    none
  else
    some { s with thread := s.thread.start }

def stopLoop (s : ClientThread) : ClientThread :=
  { s with thread := { s.thread with loopStatus := .stopping } }

-- The thread up to where its loop is stopped.
def runThread (s : ClientThread) (connfd hioConnect : Int) : Option ClientThread :=
  match s.thread.step (some .pre) with
  | some (t, none) => some { s with thread := t }
  | some (t, some .pre) =>
    let result := s.client.startConnectResult connfd hioConnect
    let s :=
      { s with
        client := s.client.startConnect connfd
        thread := t
        firstResult := some result }
    some (if result ≠ 0 then s.stopLoop else s)
  | some (t, some .startConnect) =>
    some { s with client := s.client.startConnect connfd, thread := t }
  | none => none

def threadStep (s : ClientThread) (connfd hioConnect : Int) : Option ClientThread :=
  if s.thread.loopStatus = .stopping then
    some { s with thread := { s.thread with loopStatus := .stopped } }
  else if s.thread.loopStatus = .stopped then
    if s.thread.status = .started then
      some { s with thread := { s.thread with status := .stopped } }
    else
      none
  else
    s.runThread connfd hioConnect

-- What the running loop calls. The other events do not come from it.
def loopCall (s : ClientThread) (e : TcpClientEvent) : Option ClientThread :=
  match e with
  | .onConnect | .onClose | .timeout _ _ =>
    if s.thread.loopStatus = .running then
      (s.client.step e).map fun client => { s with client := client }
    else
      none
  | .createsocket _ | .start _ | .closesocket | .setReconnect _ => none

def step (s : ClientThread) (event : ClientThreadEvent) : Option ClientThread :=
  match event with
  | .createsocket connfd =>
    (s.client.step (.createsocket connfd)).map fun client => { s with client := client }
  | .start => s.start
  | .thread connfd hioConnect => s.threadStep connfd hioConnect
  | .loop e => s.loopCall e

/--
How far the thread has got, what its first `startConnect` has returned, and how often `hio_connect`
has been called.
-/
inductive Progress : EventLoopThread ClientFunctor → Option Int → Nat → Prop
  | notStarted : Progress .new none 0
  | spawned : Progress ⟨.starting, .initialized, [], .spawned⟩ none 0
  | started : Progress ⟨.started, .initialized, [], .started⟩ none 0
  | queued : Progress ⟨.started, .initialized, [.pre], .queued⟩ none 0
  | looping (fns : List ClientFunctor) (h : .pre ∉ fns)
      : Progress ⟨.started, .running, .pre :: fns, .looping⟩ none 0
  | called (fns : List ClientFunctor) (h : .pre ∉ fns) (connects : Nat) (hconnects : 0 < connects)
      : Progress ⟨.started, .running, fns, .looping⟩ (some 0) connects
  | stopped (t : EventLoopThread ClientFunctor) (result : Int) (hresult : result ≠ 0)
      (hloop : t.loopStatus = .stopping ∨ t.loopStatus = .stopped)
      (hstatus : t.status = .started ∨ t.status = .stopped) (connects : Nat)
      (hconnects : connects ≤ 1)
      : Progress t (some result) connects

-- Before the first call of `hio_connect` nothing is under way.
def Untried (c : TcpClient) : Prop :=
  c.connects = 0 → c.inUse = false ∧ c.timers = []

structure Inv (s : ClientThread) : Prop where
  wf : s.client.Wf
  persistent : s.client.Persistent
  untried : Untried s.client
  progress : Progress s.thread s.firstResult s.client.connects

variable {s t : ClientThread}

theorem inv_new {reconn : ReconnSetting} (hmax : reconn.maxRetryCnt = infinite)
    : (new (some reconn)).Inv where
  wf := TcpClient.wf_new _
  persistent := ⟨⟨reconn, rfl, hmax⟩, by simp [new, TcpClient.new]⟩
  untried := fun _ => ⟨rfl, rfl⟩
  progress := .notStarted

section Client

variable {c d : TcpClient} {e : TcpClientEvent}

theorem connects_le_of_steps (h : TcpClient.Steps c e d) : c.connects ≤ d.connects := by
  cases h with
  | started => simp [TcpClient.connecting]
  | restarted => simp [TcpClient.connecting, TcpClient.expired]
  | lost channel d hchannel hstatus hreconnects =>
    cases hreconnects with
    | _ => exact Nat.le_refl _
  | _ => exact Nat.le_refl _

-- What comes from the loop concerns a connection or a timer.
theorem Untried.not_steps (hc : Untried c) (hzero : c.connects = 0)
    (he : e = .onConnect ∨ e = .onClose ∨ ∃ i connfd, e = .timeout i connfd)
    : ¬ TcpClient.Steps c e d := by
  have ⟨hunused, htimers⟩ := hc hzero
  intro h
  cases h with
  | connected channel hchannel hstatus hopened =>
    simp [TcpClient.inUse_of_status hchannel (.inl hstatus)] at hunused
  | lost channel _ hchannel hstatus hreconnects =>
    simp [TcpClient.inUse_of_status hchannel hstatus] at hunused
  | notRestarted i connfd hi hidle => simp [htimers] at hi
  | restarted i connfd io channel hi hready => simp [htimers] at hi
  | _ => simp at he

theorem Untried.of_steps (hc : Untried c) (he : TcpClient.Undisturbed e)
    (h : TcpClient.Steps c e d)
    : Untried d := by
  intro hzero
  have hle := connects_le_of_steps h
  have hzero' : c.connects = 0 := by omega
  cases e with
  | createsocket connfd =>
    cases h with
    | notCreated => exact hc hzero'
    | created =>
      refine ⟨?_, (hc hzero').right⟩
      simp [TcpClient.inUse, TcpClient.status, TcpClient.created]
  | start connfd =>
    cases h with
    | notStarted => exact hc hzero'
    | started => simp [TcpClient.connecting] at hzero
  | onConnect => exact absurd h (hc.not_steps hzero' (.inl rfl))
  | onClose => exact absurd h (hc.not_steps hzero' (.inr (.inl rfl)))
  | timeout i connfd => exact absurd h (hc.not_steps hzero' (.inr (.inr ⟨i, connfd, rfl⟩)))
  | closesocket => simp [TcpClient.Undisturbed] at he
  | setReconnect setting => simp [TcpClient.Undisturbed] at he

theorem connects_createsocket {connfd : Int}
    (h : TcpClient.Steps c (.createsocket connfd) d)
    : d.connects = c.connects := by
  cases h with
  | notCreated => rfl
  | created => rfl

theorem connects_start_le {connfd : Int} (h : TcpClient.Steps c (.start connfd) d)
    : d.connects ≤ c.connects + 1 := by
  cases h with
  | notStarted => exact Nat.le_succ _
  | started => exact Nat.le_refl _

theorem connects_startConnect {connfd hioConnect : Int}
    (h : c.startConnectResult connfd hioConnect = 0)
    : 0 < (c.startConnect connfd).connects := by
  unfold TcpClient.startConnectResult at h
  unfold TcpClient.startConnect
  split at h
  . simp at h
  . dsimp only at h ⊢
    generalize (if c.isClosed = true then c.createsocket connfd else c) = c' at h ⊢
    cases hchannel : c'.channel with
    | none => simp [hchannel] at h
    | some channel =>
      simp only [hchannel] at h ⊢
      split at h
      . simp at h
      . next hstarted =>
        rw [if_neg hstarted]
        exact Nat.succ_pos _

end Client

theorem Progress.queueInLoop {thread : EventLoopThread ClientFunctor} {result : Option Int}
    {connects : Nat} (h : Progress thread result connects) (hrunning : thread.loopStatus = .running)
    : Progress (thread.queueInLoop .startConnect) result connects := by
  cases h with
  | looping fns h => exact .looping _ (by simpa using h)
  | called fns h connects hconnects => exact .called _ (by simpa using h) connects hconnects
  | stopped _ _ _ hloop => simp [hrunning] at hloop
  | _ => simp [EventLoopThread.new] at hrunning

theorem Progress.start {thread : EventLoopThread ClientFunctor} {result : Option Int}
    {connects : Nat} (h : Progress thread result connects)
    (hrunning : thread.loopStatus ≠ .running) (hstopped : thread.status ≠ .stopped)
    : Progress thread.start result connects := by
  cases h with
  | notStarted => exact .spawned
  | spawned => exact .spawned
  | started => exact .started
  | queued => exact .queued
  | looping => simp at hrunning
  | called => simp at hrunning
  | stopped _ result hresult hloop hstatus connects hconnects =>
    have hstarted : thread.isStarted = true := by
      rw [isStarted, hstatus.resolve_right hstopped]
      rfl
    rw [EventLoopThread.start, if_pos hstarted]
    exact .stopped _ result hresult hloop hstatus connects hconnects

-- Only a first `startConnect` that has failed stops the loop.
theorem Progress.failed {thread : EventLoopThread ClientFunctor} {result : Option Int}
    {connects : Nat} (h : Progress thread result connects)
    (hloop : thread.loopStatus = .stopping ∨ thread.loopStatus = .stopped)
    : ∃ r, result = some r ∧ r ≠ 0 ∧ (thread.status = .started ∨ thread.status = .stopped) ∧
        connects ≤ 1 := by
  cases h with
  | stopped _ r hr _ hstatus _ hconnects => exact ⟨r, rfl, hr, hstatus, hconnects⟩
  | _ => simp [EventLoopThread.new] at hloop

theorem Inv.start (hs : s.Inv) (h : s.start = some t) : t.Inv := by
  unfold ClientThread.start at h
  split at h
  . next hrunning =>
    simp only [Option.some.injEq] at h
    subst h
    exact ⟨hs.wf, hs.persistent, hs.untried, hs.progress.queueInLoop hrunning⟩
  . split at h
    . simp at h
    . next hrunning hstopped =>
      simp only [Option.some.injEq] at h
      subst h
      exact ⟨hs.wf, hs.persistent, hs.untried, hs.progress.start hrunning hstopped⟩

-- A step of the client that counts as many calls of `hio_connect` as the thread has come to.
theorem Inv.clientStep (hs : s.Inv) {e : TcpClientEvent} {c : TcpClient}
    {thread : EventLoopThread ClientFunctor} {result : Option Int}
    (he : TcpClient.Undisturbed e) (h : TcpClient.Steps s.client e c)
    (hprogress : Progress thread result c.connects)
    : Inv ⟨c, thread, result⟩ where
  wf := hs.wf.of_steps h
  persistent := hs.persistent.of_steps hs.wf he h
  untried := hs.untried.of_steps he h
  progress := hprogress

theorem Inv.runThread (hs : s.Inv) {connfd hioConnect : Int}
    (hloop : s.thread.loopStatus ≠ .stopping ∧ s.thread.loopStatus ≠ .stopped)
    (h : s.runThread connfd hioConnect = some t)
    : t.Inv := by
  have hprogress := hs.progress
  have hsteps : TcpClient.Steps s.client (.start connfd) (s.client.startConnect connfd) :=
    TcpClient.steps_of_step hs.wf rfl
  unfold ClientThread.runThread at h
  generalize s.thread = thread, s.firstResult = first at hprogress hloop h
  generalize hconnects : s.client.connects = connects at hprogress
  cases hprogress with
  | notStarted => simp [EventLoopThread.step, EventLoopThread.new] at h
  | spawned =>
    simp only [EventLoopThread.step, Option.some.injEq] at h
    subst h
    exact ⟨hs.wf, hs.persistent, hs.untried, hconnects ▸ .started⟩
  | started =>
    simp only [EventLoopThread.step, Option.some.injEq] at h
    subst h
    exact ⟨hs.wf, hs.persistent, hs.untried, hconnects ▸ .queued⟩
  | queued =>
    simp only [EventLoopThread.step, Option.some.injEq] at h
    subst h
    exact ⟨hs.wf, hs.persistent, hs.untried, hconnects ▸ .looping [] (by simp)⟩
  | looping fns hfns =>
    simp only [EventLoopThread.step, Option.some.injEq] at h
    subst h
    split
    . next hresult =>
      apply hs.clientStep (e := .start connfd) trivial hsteps
      have hle := connects_start_le hsteps
      exact .stopped _ _ hresult (.inl rfl) (.inl rfl) _ (by omega)
    . next hresult =>
      rw [not_not] at hresult
      rw [hresult]
      apply hs.clientStep (e := .start connfd) trivial hsteps
      exact .called fns hfns _ (connects_startConnect hresult)
  | called fns hfns connects hpos =>
    simp only [EventLoopThread.step] at h
    cases fns with
    | nil => simp at h
    | cons fn fns =>
      cases fn with
      | pre => simp at hfns
      | startConnect =>
        simp only [Option.some.injEq] at h
        subst h
        apply hs.clientStep (e := .start connfd) trivial hsteps
        have hle := connects_le_of_steps hsteps
        exact .called fns (by simpa using hfns) _ (by omega)
  | stopped _ _ _ hstopped =>
    cases hstopped with
    | inl hstopping => exact absurd hstopping hloop.left
    | inr hstopped => exact absurd hstopped hloop.right

theorem Inv.threadStep (hs : s.Inv) {connfd hioConnect : Int}
    (h : s.threadStep connfd hioConnect = some t)
    : t.Inv := by
  unfold ClientThread.threadStep at h
  split at h
  . next hstopping =>
    rcases hs.progress.failed (.inl hstopping) with ⟨r, hresult, hr, hstatus, hconnects⟩
    simp only [Option.some.injEq] at h
    subst h
    refine ⟨hs.wf, hs.persistent, hs.untried, ?_⟩
    dsimp only
    rw [hresult]
    apply Progress.stopped _ r hr (.inr rfl) _ _ hconnects
    exact hstatus
  . split at h
    . next hstopped =>
      rcases hs.progress.failed (.inr hstopped) with ⟨r, hresult, hr, _, hconnects⟩
      split at h
      . simp only [Option.some.injEq] at h
        subst h
        refine ⟨hs.wf, hs.persistent, hs.untried, ?_⟩
        dsimp only
        rw [hresult]
        apply Progress.stopped _ r hr _ (.inr rfl) _ hconnects
        exact .inr hstopped
      . simp at h
    . next hstopping hstopped => exact hs.runThread ⟨hstopping, hstopped⟩ h

-- Nothing comes from the loop before `pre` has been called.
theorem Inv.loopCall (hs : s.Inv) {e : TcpClientEvent}
    (he : ∀ i connfd, e = .timeout i connfd → 0 ≤ connfd) (h : s.loopCall e = some t)
    : t.Inv := by
  have hcall : ∀ {e}, TcpClient.Undisturbed e →
      (e = .onConnect ∨ e = .onClose ∨ ∃ i connfd, e = .timeout i connfd) →
      (if s.thread.loopStatus = .running then
          (s.client.step e).map fun client => { s with client := client }
        else
          none) = some t →
        t.Inv := by
    intro e he hfrom h
    split at h
    . next hrunning =>
      rcases Option.map_eq_some_iff.mp h with ⟨c, hc, ht⟩
      subst ht
      have hsteps := TcpClient.steps_of_step hs.wf hc
      apply hs.clientStep he hsteps
      have hprogress := hs.progress
      have hle := connects_le_of_steps hsteps
      generalize s.thread = thread, s.firstResult = first at hprogress hrunning
      generalize hconnects : s.client.connects = connects at hprogress
      cases hprogress with
      | looping fns hfns => exact absurd hsteps (hs.untried.not_steps hconnects hfrom)
      | called fns hfns connects hpos => exact .called fns hfns _ (by omega)
      | stopped _ _ _ hloop => simp [hrunning] at hloop
      | _ => simp [EventLoopThread.new] at hrunning
    . simp at h
  cases e with
  | onConnect => exact hcall (e := .onConnect) trivial (.inl rfl) h
  | onClose => exact hcall (e := .onClose) trivial (.inr (.inl rfl)) h
  | timeout i connfd =>
    exact hcall (e := .timeout i connfd) (he i connfd rfl) (.inr (.inr ⟨i, connfd, rfl⟩)) h
  | _ => simp [ClientThread.loopCall] at h

theorem Inv.step (hs : s.Inv) {e : ClientThreadEvent}
    (he : ∀ i connfd, e = .loop (.timeout i connfd) → 0 ≤ connfd) (h : step s e = some t)
    : t.Inv := by
  cases e with
  | createsocket connfd =>
    rcases Option.map_eq_some_iff.mp h with ⟨c, hc, ht⟩
    subst ht
    have hsteps := TcpClient.steps_of_step hs.wf hc
    apply hs.clientStep (e := .createsocket connfd) trivial hsteps
    rw [connects_createsocket hsteps]
    exact hs.progress
  | start => exact hs.start h
  | thread connfd hioConnect => exact hs.threadStep h
  | loop e =>
    apply hs.loopCall _ h
    intro i connfd heq
    exact he i connfd (heq ▸ rfl)

def Stopped (s : ClientThread) : Prop :=
  s.thread.loopStatus = .stopping ∨ s.thread.loopStatus = .stopped

theorem Stopped.not_running (hs : s.Stopped) : s.thread.loopStatus ≠ .running := by
  cases hs with
  | inl h => simp [h]
  | inr h => simp [h]

-- Without the loop nothing calls `startConnect` any more.
theorem Stopped.step (hs : s.Stopped) {e : ClientThreadEvent} (h : step s e = some t)
    : t.Stopped ∧ t.client.connects = s.client.connects := by
  cases e with
  | createsocket connfd =>
    rcases Option.map_eq_some_iff.mp h with ⟨c, hc, ht⟩
    subst ht
    refine ⟨hs, ?_⟩
    simp only [TcpClient.step, Option.ite_none_right_eq_some, Option.some.injEq] at hc
    rw [← hc.right]
    unfold TcpClient.createsocket
    split
    . rfl
    . rfl
  | start =>
    simp only [ClientThread.step, ClientThread.start, if_neg hs.not_running] at h
    split at h
    . simp at h
    . simp only [Option.some.injEq] at h
      subst h
      refine ⟨?_, rfl⟩
      unfold EventLoopThread.start
      split
      . exact hs
      . exact hs
  | thread connfd hioConnect =>
    simp only [ClientThread.step, ClientThread.threadStep] at h
    split at h
    . simp only [Option.some.injEq] at h
      subst h
      exact ⟨.inr rfl, rfl⟩
    . next hstopping =>
      rw [if_pos (hs.resolve_left hstopping)] at h
      simp only [Option.ite_none_right_eq_some, Option.some.injEq] at h
      rw [← h.right]
      exact ⟨hs, rfl⟩
  | loop e =>
    simp only [ClientThread.step, ClientThread.loopCall, if_neg hs.not_running] at h
    cases e with
    | _ => simp at h

theorem Stopped.connects_of_run (hs : s.Stopped) {es : List ClientThreadEvent}
    (hrun : run ClientThread.step s es = some t)
    : t.client.connects = s.client.connects := by
  have hstopped : t.Stopped ∧ t.client.connects = s.client.connects := by
    apply inv_of_run (c := fun _ _ => True) (I := fun u : ClientThread =>
      u.Stopped ∧ u.client.connects = s.client.connects) _ ⟨hs, rfl⟩ _ hrun
    . intro u e v hu _ h
      have hv := hu.left.step h
      exact ⟨hv.left, hv.right.trans hu.right⟩
    . apply Meets.of_forall
      simp
  exact hstopped.right

/--
A client that is to reconnect without a limit does so, with its loop running, exactly if its very first
`startConnect` has returned 0. Otherwise the loop has been stopped, and however the run goes on,
`hio_connect` is not called again.
-/
theorem keepsTrying_iff (reconn : ReconnSetting) (hmax : reconn.maxRetryCnt = infinite)
    (es : List ClientThreadEvent)
    (hes : ∀ i connfd, .loop (.timeout i connfd) ∈ es → 0 ≤ connfd) (s : ClientThread)
    (hrun : run step (new (some reconn)) es = some s) (result : Int)
    (hresult : s.firstResult = some result)
    : (s.thread.loopStatus = .running ∧ (s.client.inUse = true ∨ s.client.timers ≠ []) ↔
          result = 0) ∧
        (result ≠ 0 →
          s.Stopped ∧ s.client.connects ≤ 1 ∧
            ∀ later t, run step s later = some t → t.client.connects = s.client.connects) := by
  have hs : s.Inv := by
    apply inv_of_run (c := fun _ e => ∀ i connfd, e = .loop (.timeout i connfd) → 0 ≤ connfd) _
      (inv_new hmax) _ hrun
    . intro s e t hs he h
      exact hs.step he h
    . apply Meets.of_forall_mem
      intro e he _ i connfd heq
      exact hes i connfd (heq ▸ he)
  have hprogress := hs.progress
  have htries := hs.persistent.tries
  have hlater : s.Stopped →
      ∀ later t, run step s later = some t → t.client.connects = s.client.connects := by
    intro hstopped later t hrun
    exact hstopped.connects_of_run hrun
  unfold Stopped at hlater ⊢
  rw [hresult] at hprogress
  generalize s.thread = thread, s.client.connects = connects at hprogress htries hlater
  cases hprogress with
  | called fns hfns connects hpos => simp [htries hpos]
  | stopped _ _ hne hloop hstatus connects hconnects =>
    have hstopped : thread.loopStatus ≠ .running := by
      cases hloop with
      | inl h => simp [h]
      | inr h => simp [h]
    refine ⟨by simp [hne, hstopped], ?_⟩
    intro _
    exact ⟨hloop, hconnects, hlater hloop⟩

-- `hio_connect` fails at once, and `start` is called in vain before the thread has ended.
def refusedAtOnce : List ClientThreadEvent :=
  [.createsocket 3, .start, .thread 0 0, .thread 0 0, .thread 0 0, .thread 0 (-1), .start,
    .thread 0 0, .thread 0 0]

theorem not_keepsTrying_refusedAtOnce
    : ∃ s, run step (new (some TcpClient.unlimited)) refusedAtOnce = some s ∧
        ¬ (s.thread.loopStatus = .running ∧ (s.client.inUse = true ∨ s.client.timers ≠ [])) ∧
        s.client.connects ≤ 1 ∧
        ∀ later t, run step s later = some t → t.client.connects = s.client.connects := by
  have hfirst : (run step (new (some TcpClient.unlimited)) refusedAtOnce).map firstResult =
      some (some (-1)) := by
    decide +kernel
  rcases Option.map_eq_some_iff.mp hfirst with ⟨s, hrun, hresult⟩
  have ⟨hiff, hfailed⟩ := keepsTrying_iff TcpClient.unlimited rfl refusedAtOnce
    (by simp [refusedAtOnce]) s hrun (-1) hresult
  refine ⟨s, hrun, ?_, (hfailed (by decide)).right⟩
  rw [hiff]
  decide

end ClientThread

end Libhv
