import NetDemo.Libhv.TcpServer.Lemmas

/-!
This module contains what the demo's `gDictChannel` knows: it is keyed by the descriptor of the
socket, which the operating system gives to another socket once it is closed.
-/

namespace Libhv

namespace TcpServer

open Transition ListUpdate

-- `onConnection` has reported the connection, which is open.
structure Connected (s : TcpServer) (k : IoRef) (io : Connio) : Prop where
  found : s.ios[k]? = some io
  state : ∃ w, io.state = ⟨w, true, true⟩
  reported : ∀ (w : Nat) (worker : Worker), s.workers[w]? = some worker → worker.doing ≠ .added k

-- `onclose` is about to report that the connection has closed.
structure Closing (s : TcpServer) (w : Nat) (k : IoRef) (io : Connio) : Prop where
  found : s.ios[k]? = some io
  doing : ∃ worker, s.workers[w]? = some worker ∧ worker.doing = .closing k

def DictComplete (s : TcpServer) : Prop :=
  ∀ k io, s.Connected k io → s.dictChannel io.hio.fd = some k

/--
The connection that is reported closed by the event is the last one with its descriptor: no other
one has been opened with it in the meantime.
-/
def FdUnused (s : TcpServer) (e : TcpServerEvent) : Prop :=
  ∀ w, e = .onDisconnection w →
    ∀ j k io io', s.Closing w j io → s.Connected k io' → io'.hio.fd ≠ io.hio.fd

/--
The descriptor of a connection is closed after the connection has been reported closed.
-/
def ReleasedLate (s : TcpServer) (e : TcpServerEvent) : Prop :=
  ∀ k, e = .releaseFd k → ∀ w io, ¬ s.Closing w k io

-- An open socket has its descriptor for itself.
structure FdWf (s : TcpServer) : Prop where
  opened : ∀ (k : IoRef) (io : Connio), s.ios[k]? = some io → io.hio.opened = true →
    io.fdInUse = true
  unique : ∀ (j k : IoRef) (io io' : Connio), s.ios[j]? = some io → s.ios[k]? = some io' →
    io.fdInUse = true → io'.fdInUse = true → io.hio.fd = io'.hio.fd → j = k

theorem FdWf.set {s t : TcpServer} (hs : s.FdWf) {k : IoRef} {io io' : Connio}
    (ht : t.ios = s.ios.set k io') (hk : s.ios[k]? = some io) (hfd : io'.hio.fd = io.hio.fd)
    (huse : io'.fdInUse = true → io.fdInUse = true)
    (hopened : io'.hio.opened = true → io'.fdInUse = true)
    : t.FdWf := by
  have ⟨hopened', hunique⟩ := hs
  have hlt := (List.getElem?_eq_some_iff.mp hk).1
  constructor
  . rw [ht]
    apply forall_set (p := fun _ (x : Connio) => x.hio.opened = true → x.fdInUse = true) hopened
    intro j x _ hx
    exact hopened' j x hx
  . rw [ht]
    grind

theorem FdWf.of_steps {s t : TcpServer} {e : TcpServerEvent} (hs : s.FdWf) (h : Steps s e t)
    : t.FdWf := by
  have ⟨hopened, hunique⟩ := hs
  cases h with
  | accepted fd w worker hfd hw =>
    have hfree : ∀ (k : IoRef) (io : Connio), s.ios[k]? = some io → io.fdInUse = true →
        io.hio.fd ≠ fd := by
      intro k io hk huse
      have hall := List.all_eq_true.mp hfd io (List.mem_of_getElem? hk)
      simpa [huse] using hall
    constructor
    . grind
    . grind
  | refused w num k customEvents io hw hfree hmax hk hio =>
    exact hs.set rfl hk rfl id (by simp)
  | checked w num k customEvents hw hfree hmax => exact ⟨hopened, hunique⟩
  | added w num k customEvents io hw hfree hk hio => exact hs.set rfl hk rfl id (hopened k io hk)
  | connected w num k customEvents io hw hk hio => exact ⟨hopened, hunique⟩
  | closed w num k customEvents io channel hw hk hio hchannel =>
    exact hs.set rfl hk rfl id (by simp)
  | disconnected w num k customEvents io hw hk hio => exact ⟨hopened, hunique⟩
  | removed w num k customEvents hw hfree => exact ⟨hopened, hunique⟩
  | released k io hk hio => exact hs.set rfl hk rfl (by simp) (by simp [hio])
  | broadcast data hfree => exact ⟨hopened, hunique⟩
  | wrote data k rest io channel hnext hk hchannel => exact hs.set rfl hk rfl id (hopened k io hk)
  | done data hnext => exact ⟨hopened, hunique⟩

theorem Connected.of_set {s t : TcpServer} {j : IoRef} {io : Connio} (h : t.Connected j io)
    {w : Nat} {worker worker' : Worker} (ht : t.workers = s.workers.set w worker')
    (hw : s.workers[w]? = some worker) (hdoing : worker.doing = .added j → worker'.doing = .added j)
    {io' : Connio} (hfound : s.ios[j]? = some io') (hstate : io'.state = io.state)
    : s.Connected j io' where
  found := hfound
  state := by
    rw [hstate]
    exact h.state
  reported := by
    intro v x hx hadded
    by_cases hv : w = v
    . subst hv
      have heq : x = worker := by grind
      apply h.reported w worker'
      . grind
      . exact hdoing (heq ▸ hadded)
    . apply h.reported v x
      . grind
      . exact hadded

/--
Connections become `Connected` by `onConnection` only.
-/
theorem connected_of_steps {s t : TcpServer} {e : TcpServerEvent} (h : Steps s e t)
    (hne : ∀ w, e ≠ .onConnection w) {j : IoRef} {io : Connio} (hconnected : t.Connected j io)
    : ∃ io', s.Connected j io' ∧ io'.hio.fd = io.hio.fd := by
  have ⟨hfound, ⟨loop, hstate⟩, hreported⟩ := hconnected
  cases h with
  | accepted fd w worker hfd hw =>
    have hfound' : s.ios[j]? = some io := by
      dsimp only at hfound
      rw [List.getElem?_append] at hfound
      grind [Connio.state]
    exact ⟨io, hconnected.of_set rfl hw id hfound' rfl, rfl⟩
  | refused w num k customEvents io' hw hfree hmax hk hio =>
    have hfound' : s.ios[j]? = some io := by
      grind [Connio.state]
    exact ⟨io, hconnected.of_set rfl hw (by simp) hfound' rfl, rfl⟩
  | checked w num k customEvents hw hfree hmax =>
    exact ⟨io, hconnected.of_set rfl hw (by simp) hfound rfl, rfl⟩
  | added w num k customEvents io' hw hfree hk hio =>
    have hlt : w < s.workers.length := (List.getElem?_eq_some_iff.mp hw).1
    have hj : j ≠ k := by
      intro heq
      apply hreported w ⟨num, customEvents, .added k⟩
      . simp [hlt]
      . rw [heq]
    have hfound' : s.ios[j]? = some io := by
      grind
    exact ⟨io, hconnected.of_set rfl hw (by simp) hfound' rfl, rfl⟩
  | connected w num k customEvents io' hw hk hio => simp at hne
  | closed w num k customEvents io' channel hw hk hio hchannel =>
    have hfound' : s.ios[j]? = some io := by
      grind [Connio.state]
    exact ⟨io, hconnected.of_set rfl hw (by simp) hfound' rfl, rfl⟩
  | disconnected w num k customEvents io' hw hk hio =>
    exact ⟨io, hconnected.of_set rfl hw (by simp) hfound rfl, rfl⟩
  | removed w num k customEvents hw hfree =>
    exact ⟨io, hconnected.of_set rfl hw (by simp) hfound rfl, rfl⟩
  | released k io' hk hio =>
    have hfound' : s.ios[j]? = some io := by
      grind [Connio.state]
    exact ⟨io, ⟨hfound', ⟨loop, hstate⟩, hreported⟩, rfl⟩
  | broadcast data hfree => exact ⟨io, ⟨hfound, ⟨loop, hstate⟩, hreported⟩, rfl⟩
  | wrote data k rest io' channel hnext hk hchannel =>
    by_cases hj : j = k
    . subst hj
      refine ⟨io', ⟨hk, ⟨loop, ?_⟩, hreported⟩, ?_⟩
      . grind [Connio.state]
      . grind
    . have hfound' : s.ios[j]? = some io := by
        grind
      exact ⟨io, ⟨hfound', ⟨loop, hstate⟩, hreported⟩, rfl⟩
  | done data hnext => exact ⟨io, ⟨hfound, ⟨loop, hstate⟩, hreported⟩, rfl⟩

theorem Connected.fdInUse {s : TcpServer} {k : IoRef} {io : Connio} (h : s.Connected k io)
    (hfd : s.FdWf)
    : io.fdInUse = true := by
  have ⟨hfound, ⟨_, hstate⟩, _⟩ := h
  exact hfd.opened k io hfound (congrArg IoState.opened hstate)

theorem DictComplete.of_steps {s t : TcpServer} {e : TcpServerEvent} (hfd : s.FdWf)
    (hs : s.DictComplete) (hunused : s.FdUnused e) (h : Steps s e t)
    : t.DictComplete := by
  have hkeep : (∀ w, e ≠ .onConnection w) → t.dictChannel = s.dictChannel → t.DictComplete := by
    intro hne hdict j io hconnected
    rcases connected_of_steps h hne hconnected with ⟨io', hconnected', hsame⟩
    rw [hdict, ← hsame]
    exact hs j io' hconnected'
  cases h with
  | connected w num k customEvents io hw hk hio =>
    intro j io' hconnected
    have hfound : s.ios[j]? = some io' := hconnected.found
    by_cases hj : j = k
    . subst hj
      have heq : io' = io := by grind
      rw [heq]
      apply Function.update_self
    . have hconnected' : s.Connected j io' := by
        apply hconnected.of_set rfl hw _ hfound rfl
        intro hadded
        simp only [Doing.added.injEq] at hadded
        exact absurd hadded.symm hj
      have huse : io.fdInUse = true := hfd.opened k io hk (congrArg IoState.opened hio)
      have hne : io'.hio.fd ≠ io.hio.fd := by
        intro heq
        exact hj (hfd.unique j k io' io hfound hk (hconnected'.fdInUse hfd) huse heq)
      rw [← hs j io' hconnected']
      exact Function.update_of_ne hne _ _
  | disconnected w num k customEvents io hw hk hio =>
    intro j io' hconnected
    have hconnected' : s.Connected j io' := by
      apply hconnected.of_set rfl hw (by simp) hconnected.found rfl
    have hne := hunused w rfl k j io io' ⟨hk, _, hw, rfl⟩ hconnected'
    rw [← hs j io' hconnected']
    exact Function.update_of_ne hne _ _
  | _ => exact hkeep (by simp) rfl

theorem FdUnused.of_dictComplete {s t : TcpServer} {e : TcpServerEvent} (h : Steps s e t)
    (ht : t.DictComplete)
    : s.FdUnused e := by
  intro w he j k io io' hclosing hconnected hfd
  subst he
  cases h with
  | disconnected _ num k' customEvents io'' hw hk hio =>
    obtain ⟨hj, worker, hworker, hdoing⟩ := hclosing
    have hjk : j = k' := by grind
    subst hjk
    have hio' : io = io'' := by grind
    have ⟨hfound, hstate, hreported⟩ := hconnected
    have hconnected' : Connected { s with
        dictChannel := Function.update s.dictChannel io''.hio.fd none
        workers := s.workers.set w ⟨num, customEvents, .disconnected j⟩ } k io' := by
      refine ⟨hfound, hstate, ?_⟩
      apply forall_set (p := fun _ (x : Worker) => x.doing ≠ .added k)
      . simp
      . intro v x _ hx
        exact hreported v x hx
    have hdict := ht k io' hconnected'
    rw [hfd, hio'] at hdict
    simp at hdict

theorem fdWf_new (threadNum max : Nat) : (new threadNum max).FdWf := by
  constructor
  . simp [new]
  . simp [new]

theorem dictComplete_new (threadNum max : Nat) : (new threadNum max).DictComplete := by
  intro k io hconnected
  have hfound := hconnected.found
  simp [new] at hfound

/--
`gDictChannel` holds every open connection that has been reported in all states of a run exactly if
in that run no connection is reported closed after its descriptor has been given to another
connection: the code erases by descriptor and would erase the new one.
-/
theorem dictComplete_iff_fdUnused (threadNum max : Nat) (es : List TcpServerEvent) (s : TcpServer)
    (hrun : run step (new threadNum max) es = some s)
    : Along step DictComplete (new threadNum max) es ↔
        Meets step FdUnused (new threadNum max) es := by
  apply along_iff_meets (I := fun s => s.Wf ∧ s.FdWf ∧ s.DictComplete) _ _ _ _ hrun
  . intro s hs
    exact hs.right.right
  . intro s e t hs hunused h
    have hsteps := steps_of_step hs.left h
    exact ⟨hs.left.of_steps hsteps, hs.right.left.of_steps hsteps,
      hs.right.right.of_steps hs.right.left hunused hsteps⟩
  . intro s e t hs h ht
    exact FdUnused.of_dictComplete (steps_of_step hs.left h) ht
  . exact ⟨wf_new threadNum max, fdWf_new threadNum max, dictComplete_new threadNum max⟩

-- The second connection gets the descriptor of the first one, and its own entry is erased.
def reusedFd : List TcpServerEvent :=
  [.onAccept 7 0, .newConnEvent 0, .addChannel 0, .onConnection 0, .onClose 0, .releaseFd 0,
    .onAccept 7 1, .newConnEvent 1, .addChannel 1, .onConnection 1]

theorem not_dictComplete_reusedFd
    : ¬ Along step DictComplete (new 2 5) (reusedFd ++ [.onDisconnection 0]) := by
  rw [dictComplete_iff_fdUnused 2 5 _ _ rfl, meets_concat rfl]
  rintro ⟨_, hunused⟩
  apply hunused 0 rfl 0 1 _ _ ⟨rfl, _, rfl, rfl⟩ ⟨rfl, ⟨1, rfl⟩, _⟩ rfl
  intro w worker hw
  have hmem : worker ∈ [⟨0, [], .closing 0⟩, ⟨1, [], .idle⟩] := List.mem_of_getElem? hw
  simp only [List.mem_cons, List.not_mem_nil, or_false] at hmem
  cases hmem with
  | inl h => simp [h]
  | inr h => simp [h]

-- What `ReleasedLate` keeps.
def ClosingInUse (s : TcpServer) : Prop :=
  ∀ w k io, s.Closing w k io → io.fdInUse = true

theorem ClosingInUse.of_steps {s t : TcpServer} {e : TcpServerEvent} (hfd : s.FdWf)
    (hs : s.ClosingInUse) (hlate : s.ReleasedLate e) (h : Steps s e t)
    : t.ClosingInUse := by
  rintro v j io ⟨hfound, x, hx, hdoing⟩
  have hold : ∀ io' x', s.ios[j]? = some io' → s.workers[v]? = some x' →
      x'.doing = .closing j → io'.fdInUse = true :=
    fun io' x' hio' hx' hdoing' => hs v j io' ⟨hio', x', hx', hdoing'⟩
  cases h with
  | accepted fd w worker hfd' hw =>
    rw [List.getElem?_append] at hfound
    grind
  | refused w num k customEvents io' hw hfree hmax hk hio => grind
  | checked w num k customEvents hw hfree hmax => grind
  | added w num k customEvents io' hw hfree hk hio => grind
  | connected w num k customEvents io' hw hk hio => grind
  | closed w num k customEvents io' channel hw hk hio hchannel =>
    have huse := hfd.opened k io' hk (congrArg IoState.opened hio)
    grind
  | disconnected w num k customEvents io' hw hk hio => grind
  | removed w num k customEvents hw hfree => grind
  | released k io' hk hio =>
    have hne : k ≠ j := by
      intro heq
      exact hlate k rfl v io' ⟨hk, x, hx, heq ▸ hdoing⟩
    grind
  | broadcast data hfree => grind
  | wrote data k rest io' channel hnext hk hchannel => grind
  | done data hnext => grind

theorem ClosingInUse.fdUnused {s : TcpServer} (hs : s.ClosingInUse) (hwf : s.Wf) (hfd : s.FdWf)
    (e : TcpServerEvent)
    : s.FdUnused e := by
  intro w _ j k io io' hclosing hconnected heq
  have huse := hs w j io hclosing
  obtain ⟨hfound, worker, hworker, hdoing⟩ := hclosing
  have hjk := hfd.unique k j io' io hconnected.found hfound (hconnected.fdInUse hfd) huse heq
  subst hjk
  have hstate := ((hwf.workers w worker hworker).closing k hdoing).left
  rcases hconnected.state with ⟨loop, hstate'⟩
  simp [ioState, hconnected.found, hstate'] at hstate

/--
If libhv closes a socket only after its `onclose` has called `onConnection`, `gDictChannel` holds
every open connection that has been reported, in all states of every run.
-/
theorem dictComplete_of_releasedLate (threadNum max : Nat) (es : List TcpServerEvent)
    (hlate : Meets step ReleasedLate (new threadNum max) es)
    : Along step DictComplete (new threadNum max) es := by
  apply along_of_meets (I := fun s => s.Wf ∧ s.FdWf ∧ s.ClosingInUse ∧ s.DictComplete) _ _ _ hlate
  . intro s hs
    exact hs.right.right.right
  . intro s e t ⟨hwf, hfd, huse, hs⟩ hlate h
    have hsteps := steps_of_step hwf h
    exact ⟨hwf.of_steps hsteps, hfd.of_steps hsteps, huse.of_steps hfd hlate hsteps,
      hs.of_steps hfd (huse.fdUnused hwf hfd e) hsteps⟩
  . refine ⟨wf_new threadNum max, fdWf_new threadNum max, ?_, dictComplete_new threadNum max⟩
    intro w k io hclosing
    have hfound := hclosing.found
    simp [new] at hfound

def releasedFd : List TcpServerEvent :=
  [.onAccept 7 0, .newConnEvent 0, .addChannel 0, .onConnection 0, .onClose 0, .onDisconnection 0]

theorem dictComplete_releasedFd
    : Along step DictComplete (new 2 5) (releasedFd ++ [.releaseFd 0]) := by
  apply dictComplete_of_releasedLate
  rw [meets_concat rfl]
  constructor
  . apply Meets.of_forall_mem
    simp [releasedFd, ReleasedLate]
  . rintro k _ w io ⟨_, worker, hw, hdoing⟩
    have hmem : worker ∈ [⟨0, [], .disconnected 0⟩, ⟨0, [], .idle⟩] := List.mem_of_getElem? hw
    simp only [List.mem_cons, List.not_mem_nil, or_false] at hmem
    cases hmem with
    | inl h => simp [h] at hdoing
    | inr h => simp [h] at hdoing

-- A connection that has been reported and has not been reported closed.
def Reported (s : TcpServer) (k : IoRef) (io : Connio) : Prop :=
  s.Connected k io ∨ ∃ w, s.Closing w k io

theorem Reported.of_set {s t : TcpServer} {k : IoRef} {io io' : Connio} (h : s.Reported k io)
    {w : Nat} {worker worker' : Worker} (ht : t.workers = s.workers.set w worker')
    (hw : s.workers[w]? = some worker) (hadded : worker'.doing ≠ .added k)
    (hclosing : worker.doing = .closing k → worker'.doing = .closing k)
    (hfound : t.ios[k]? = some io') (hstate : io'.state = io.state)
    : t.Reported k io' := by
  have hlt : w < s.workers.length := (List.getElem?_eq_some_iff.mp hw).1
  rcases h with hconnected | ⟨v, _, x, hx, hdoing⟩
  . left
    refine ⟨hfound, by rw [hstate]; exact hconnected.state, ?_⟩
    rw [ht]
    apply forall_set (p := fun _ (x : Worker) => x.doing ≠ .added k) hadded
    intro v x _ hx
    exact hconnected.reported v x hx
  . right
    refine ⟨v, hfound, ?_⟩
    rw [ht]
    by_cases hv : v = w
    . subst hv
      refine ⟨worker', by simp [hlt], hclosing ?_⟩
      grind
    . refine ⟨x, ?_, hdoing⟩
      grind

theorem Reported.found {s : TcpServer} {k : IoRef} {io : Connio} (h : s.Reported k io)
    : s.ios[k]? = some io := by
  rcases h with hconnected | ⟨w, hclosing⟩
  . exact hconnected.found
  . exact hclosing.found

theorem Reported.hasChannel {s : TcpServer} (hwf : s.Wf) {k : IoRef} {io : Connio}
    (h : s.Reported k io)
    : io.channel.isSome = true := by
  rcases h with hconnected | ⟨w, hfound, worker, hworker, hdoing⟩
  . rcases hconnected.state with ⟨w, hstate⟩
    exact congrArg IoState.hasChannel hstate
  . have hstate := ((hwf.workers w worker hworker).closing k hdoing).left
    simp only [ioState, hfound, Option.map_some, Option.some.injEq] at hstate
    exact congrArg IoState.hasChannel hstate

theorem Reported.ne_added {s : TcpServer} (hwf : s.Wf) {k : IoRef} {io : Connio}
    (h : s.Reported k io) {w : Nat} {worker : Worker} (hw : s.workers[w]? = some worker)
    : worker.doing ≠ .added k := by
  intro hadded
  rcases h with hconnected | ⟨v, hfound, worker', hworker', hdoing⟩
  . exact hconnected.reported w worker hw hadded
  . have hopened := (hwf.workers w worker hw).added k hadded
    have hclosed := ((hwf.workers v worker' hworker').closing k hdoing).left
    simp [hopened] at hclosed

theorem Reported.of_workers_eq {s t : TcpServer} {k : IoRef} {io io' : Connio}
    (h : s.Reported k io) (ht : t.workers = s.workers) (hfound : t.ios[k]? = some io')
    (hstate : io'.state = io.state)
    : t.Reported k io' := by
  rcases h with ⟨_, hstate', hreported⟩ | ⟨w, _, hdoing⟩
  . exact .inl ⟨hfound, by rwa [hstate], by rwa [ht]⟩
  . exact .inr ⟨w, hfound, by rwa [ht]⟩

theorem Reported.setIo {s t : TcpServer} {j k : IoRef} {io io' io'' : Connio}
    (h : s.Reported k io) (ht : t.workers = s.workers) (hios : t.ios = s.ios.set j io'')
    (hj : s.ios[j]? = some io') (hstate : io''.state = io'.state) (hfd : io''.hio.fd = io'.hio.fd)
    : ∃ io', t.Reported k io' ∧ io'.hio.fd = io.hio.fd := by
  have hfound := h.found
  by_cases hjk : j = k
  . subst hjk
    have hlt : j < s.ios.length := (List.getElem?_eq_some_iff.mp hj).1
    have heq : io' = io := by grind
    subst heq
    refine ⟨io'', h.of_workers_eq ht ?_ hstate, hfd⟩
    simp [hios, hlt]
  . refine ⟨io, h.of_workers_eq ht ?_ rfl, rfl⟩
    grind

theorem reported_of_steps {s t : TcpServer} {e : TcpServerEvent} (hwf : s.Wf) (h : Steps s e t)
    (hne : ∀ w, e ≠ .onDisconnection w) {k : IoRef} {io : Connio} (hreported : s.Reported k io)
    : ∃ io', t.Reported k io' ∧ io'.hio.fd = io.hio.fd := by
  have hfound := hreported.found
  have hchannel := hreported.hasChannel hwf
  cases h with
  | accepted fd w worker hfd hw =>
    have hlt : k < s.ios.length := (List.getElem?_eq_some_iff.mp hfound).1
    have hadded : worker.doing ≠ .added k := hreported.ne_added hwf hw
    refine ⟨io, hreported.of_set rfl hw hadded id ?_ rfl, rfl⟩
    simp [List.getElem?_append_left hlt, hfound]
  | refused w num j customEvents io' hw hfree hmax hj hio =>
    have hjk : j ≠ k := by
      grind [Connio.state]
    refine ⟨io, hreported.of_set rfl hw (by simp) (by simp) ?_ rfl, rfl⟩
    grind
  | checked w num j customEvents hw hfree hmax =>
    exact ⟨io, hreported.of_set rfl hw (by simp) (by simp) hfound rfl, rfl⟩
  | added w num j customEvents io' hw hfree hj hio =>
    have hjk : j ≠ k := by
      grind [Connio.state]
    refine ⟨io, hreported.of_set rfl hw (by simpa using hjk) (by simp) ?_ rfl, rfl⟩
    grind
  | connected w num j customEvents io' hw hj hio =>
    exact ⟨io, hreported.of_set rfl hw (by simp) (by simp) hfound rfl, rfl⟩
  | closed w num j customEvents io' channel hw hj hio hchannel' =>
    by_cases hjk : j = k
    . subst hjk
      have hlt : w < s.workers.length := (List.getElem?_eq_some_iff.mp hw).1
      have hlt' : j < s.ios.length := (List.getElem?_eq_some_iff.mp hj).1
      have heq : io' = io := by grind
      refine ⟨_, .inr ⟨w, List.getElem?_set_self hlt', _, List.getElem?_set_self hlt, rfl⟩, ?_⟩
      rw [heq]
    . refine ⟨io, hreported.of_set rfl hw (by simp) (by simp) ?_ rfl, rfl⟩
      grind
  | disconnected w num j customEvents io' hw hj hio => simp at hne
  | removed w num j customEvents hw hfree =>
    exact ⟨io, hreported.of_set rfl hw (by simp) (by simp) hfound rfl, rfl⟩
  | released j io' hj hio => exact hreported.setIo rfl rfl hj rfl rfl
  | broadcast data hfree => exact ⟨io, hreported.of_workers_eq rfl hfound rfl, rfl⟩
  | wrote data j rest io' channel hnext hj hchannel' =>
    exact hreported.setIo rfl rfl hj (by simp [Connio.state, hchannel']) rfl
  | done data hnext => exact ⟨io, hreported.of_workers_eq rfl hfound rfl, rfl⟩

def DictSound (s : TcpServer) : Prop :=
  ∀ fd k, s.dictChannel fd = some k → ∃ io, s.Reported k io ∧ io.hio.fd = fd

theorem DictSound.of_steps {s t : TcpServer} {e : TcpServerEvent} (hwf : s.Wf) (hs : s.DictSound)
    (h : Steps s e t)
    : t.DictSound := by
  have hkeep : (∀ w, e ≠ .onDisconnection w) → ∀ fd k, s.dictChannel fd = some k →
      ∃ io, t.Reported k io ∧ io.hio.fd = fd := by
    intro hne fd k hdict
    rcases hs fd k hdict with ⟨io, hreported, hfd⟩
    rcases reported_of_steps hwf h hne hreported with ⟨io', hreported', hsame⟩
    exact ⟨io', hreported', by rw [hsame, hfd]⟩
  cases h with
  | connected w num k customEvents io hw hk hio =>
    intro fd j hdict
    by_cases hfd : fd = io.hio.fd
    . have hj : j = k := by simpa [hfd, eq_comm] using hdict
      subst hj
      refine ⟨io, .inl ⟨hk, ⟨w, hio⟩, ?_⟩, hfd.symm⟩
      apply forall_set (p := fun _ (x : Worker) => x.doing ≠ .added j)
      . simp
      . intro v x hv hx hadded
        have hloop := (hwf.workers v x hx).added j hadded
        have hloop' : ioState s.ios j = some ⟨w, true, true⟩ := ioState_eq_some.mpr ⟨io, hk, hio⟩
        simp [hloop, hv] at hloop'
    . apply hkeep (by simp)
      rwa [← Function.update_of_ne hfd (some k) s.dictChannel]
  | disconnected w num k customEvents io hw hk hio =>
    intro fd j hdict
    have hfd : fd ≠ io.hio.fd := by
      intro heq
      simp [heq] at hdict
    have hdict' : s.dictChannel fd = some j := by
      rwa [← Function.update_of_ne hfd none s.dictChannel]
    rcases hs fd j hdict' with ⟨io', hreported, hfd'⟩
    have hjk : j ≠ k := by
      intro heq
      subst heq
      have heq' : io' = io := by
        have := hreported.found
        grind
      exact hfd (by rw [← hfd', heq'])
    refine ⟨io', hreported.of_set rfl hw (by simp) ?_ hreported.found rfl, hfd'⟩
    intro hclosing
    simp only [Doing.closing.injEq] at hclosing
    exact absurd hclosing.symm hjk
  | _ => exact hkeep (by simp)

/--
In every run an entry of `gDictChannel` is a connection with that descriptor which has been reported
and has not been reported closed yet.
-/
theorem dictSound_of_run (threadNum max : Nat) (es : List TcpServerEvent) (s : TcpServer)
    (hrun : run step (new threadNum max) es = some s) (fd : Int) (k : IoRef)
    (hdict : s.dictChannel fd = some k)
    : ∃ io, s.Reported k io ∧ io.hio.fd = fd := by
  have hsound : s.DictSound := by
    apply And.right
    apply (wf_new threadNum max).inv_of_run _ _ hrun
    . intro s e t hwf hs h
      exact hs.of_steps hwf h
    . intro fd k hdict
      simp [new] at hdict
  exact hsound fd k hdict

theorem dictSound_of_run_reusedFd
    : ∃ s, run step (new 2 5) reusedFd = some s ∧ ∃ io, s.Reported 1 io ∧ io.hio.fd = 7 := by
  refine ⟨_, rfl, ?_⟩
  exact dictSound_of_run 2 5 reusedFd _ rfl 7 1 rfl

end TcpServer

end Libhv
