import NetDemo.Server.Slots

/-!
This module contains the accounting of the slots: which of them are in use without anybody holding
them, and how far the pool grows because of that.
-/

namespace Server

open IoServicePool Transition

def live (session : Session) : Bool :=
  session.accepted && !session.hasFailed

def liveCount (s : Server) : Nat :=
  (s.sessions.filter live).length

def NoLeak (s : Server) : Prop :=
  ∀ i, s.pool.InUse i → i = s.serialNum ∨
    ∃ (k : SessionRef) (session : Session), s.Holds k session ∧ session.serialNum = i

-- The first error of a session is the one that makes it give its slot back.
def GivesBack (s : Server) (event : ServerEvent) : Prop :=
  match event with
  | .written k _ error => ∀ session ∈ s.sessions[k]?, error.failed = true →
    session.hasFailed = true ∨ error.value = 2
  | .accept _ _ _ => True
  | .sendData _ _ => True
  | .transfer _ _ _ _ => True

def AcceptSucceeds (_ : Server) (event : ServerEvent) : Prop :=
  match event with
  | .accept _ error _ => error.failed = false
  | .sendData _ _ => True
  | .transfer _ _ _ _ => True
  | .written _ _ _ => True

instance (s : Server) (event : ServerEvent) : Decidable (s.GivesBack event) :=
  match event with
  | .written k _ error =>
    inferInstanceAs (Decidable (∀ session ∈ s.sessions[k]?, error.failed = true →
      session.hasFailed = true ∨ error.value = 2))
  | .accept _ _ _ => isTrue trivial
  | .sendData _ _ => isTrue trivial
  | .transfer _ _ _ _ => isTrue trivial

instance (s : Server) (event : ServerEvent) : Decidable (s.AcceptSucceeds event) :=
  match event with
  | .accept _ error _ => inferInstanceAs (Decidable (error.failed = false))
  | .sendData _ _ => isTrue trivial
  | .transfer _ _ _ _ => isTrue trivial
  | .written _ _ _ => isTrue trivial

variable {s t : Server} {k : SessionRef} {session session' : Session}

-- For the events that grant nothing: who holds a slot that is still in use goes on holding one
-- with that number.
theorem NoLeak.of_holds (hs : s.NoLeak) (hserial : t.serialNum = s.serialNum)
    (hinUse : ∀ i, t.pool.InUse i → s.pool.InUse i)
    (hholds : ∀ (j : SessionRef) (x : Session), s.Holds j x → t.pool.InUse x.serialNum →
      ∃ y, t.Holds j y ∧ y.serialNum = x.serialNum)
    : t.NoLeak := by
  intro i hi
  cases hs i (hinUse i hi) with
  | inl heq => exact .inl (by rw [heq, hserial])
  | inr hheld =>
    rcases hheld with ⟨j, x, hx, heq⟩
    subst heq
    rcases hholds j x hx hi with ⟨y, hy, hyx⟩
    exact .inr ⟨j, y, hy, hyx⟩

theorem NoLeak.admitted (hs : s.NoLeak) (hwf : s.Wf) {i : Nat} (hi : s.accepting[i]? = some k)
    (hk : s.sessions[k]? = some session) (haccepted : session'.accepted = true)
    (hserial : session'.serialNum = session.serialNum)
    (hcompleted : session'.completed = session.completed)
    : (s.admitted i k session').NoLeak := by
  refine hs.of_holds rfl (fun _ h => h) ?_
  intro j x hx _
  rcases hx with ⟨hget, hx⟩
  by_cases hj : j = k
  . subst hj
    rw [hk] at hget
    simp only [Option.some.injEq] at hget
    subst hget
    have hsilent := hwf.silent j session hk (hwf.not_accepted hi hk)
    refine ⟨session', ⟨?_, .inr ⟨haccepted, ?_⟩⟩, hserial⟩
    . simp [Server.admitted, lookup_set hk]
    . simp [Session.hasFailed, hcompleted, hsilent.right.right]
  . refine ⟨x, ⟨?_, .inr ?_⟩, rfl⟩
    . simp only [Server.admitted, lookup_set hk, if_neg hj]
      exact hget
    . simpa [(hwf.accepting_eq hi).left, hj] using hx

theorem NoLeak.armed (hs : s.NoLeak) (hwf : s.Wf) {sn : Nat} {ref : ServiceRef}
    {pool : IoServicePool} (hgrants : s.pool.Grants sn ref pool)
    : (s.armed sn ref pool).NoLeak := by
  intro i hi
  cases (hgrants.inUse_iff hwf.pool.lockstep i).mp hi with
  | inl heq =>
    refine .inr ⟨s.sessions.length, .new ref sn, ⟨?_, .inl ?_⟩, heq.symm⟩
    . rw [lookup_armed, if_pos rfl]
    . simp [Server.armed]
  | inr hold =>
    cases hs i hold with
    | inl heq => exact .inl heq
    | inr hheld =>
      rcases hheld with ⟨j, x, ⟨hget, hx⟩, heq⟩
      have hne := Nat.ne_of_lt (List.getElem?_eq_some_iff.mp hget).1
      refine .inr ⟨j, x, ⟨?_, ?_⟩, heq⟩
      . rw [lookup_armed, if_neg hne]
        exact hget
      . cases hx with
        | inl hpending => exact .inl (List.mem_append_left _ hpending)
        | inr hlive => exact .inr hlive

theorem NoLeak.sendData (hs : s.NoLeak) (hwf : s.Wf) (msg : Bytes) (slack : List Nat)
    : (s.sendData msg slack).NoLeak := by
  refine hs.of_holds rfl (fun _ h => h) ?_
  intro j x hx _
  refine ⟨if j ∈ s.arrSessions then x.sendData msg (slack.getD j 0) else x, ⟨?_, ?_⟩, ?_⟩
  . rw [lookup_sendData hwf.nodup, hx.left]
    rfl
  . split
    . exact hx.right
    . exact hx.right
  . split
    . rfl
    . rfl

theorem NoLeak.replaced (hs : s.NoLeak) (hwf : s.Wf) (hk : s.sessions[k]? = some session)
    (haccepted : session.accepted = true) (haccepted' : session'.accepted = true)
    (hserial : session'.serialNum = session.serialNum) {pool : IoServicePool}
    (hinUse : ∀ i, pool.InUse i → s.pool.InUse i)
    (hfailed : pool.InUse session.serialNum → session.hasFailed = false →
      session'.hasFailed = false)
    : (s.replaced k session' pool).NoLeak := by
  refine hs.of_holds rfl hinUse ?_
  intro j x hx hused
  rcases hx with ⟨hget, hx⟩
  by_cases hj : j = k
  . subst hj
    rw [hk] at hget
    simp only [Option.some.injEq] at hget
    subst hget
    refine ⟨session', ⟨?_, .inr ⟨haccepted', ?_⟩⟩, hserial⟩
    . simp [Server.replaced, lookup_set hk]
    . cases hx with
      | inl hpending => exact absurd hpending (hwf.not_mem_accepting hk haccepted)
      | inr hlive => exact hfailed hused hlive.right
  . refine ⟨x, ⟨?_, hx⟩, rfl⟩
    simp only [Server.replaced, lookup_set hk, if_neg hj]
    exact hget

theorem NoLeak.steps {event : ServerEvent} (hs : s.NoLeak) (hwf : s.Wf)
    (hgives : s.GivesBack event) (haccept : s.AcceptSucceeds event) (h : Steps s event t)
    : t.NoLeak := by
  cases h with
  | refused i error localEndpoint hi herror => simp [AcceptSucceeds, herror] at haccept
  | thrown i k error localEndpoint session hi hk herror hstart =>
    exact hs.admitted hwf hi hk rfl rfl rfl
  | armed i k error session sn ref pool hi hk herror hgrants =>
    have hadmitted : (s.admitted i k (started session)).NoLeak := hs.admitted hwf hi hk rfl rfl rfl
    exact hadmitted.armed (hwf.admitted hi hk rfl) hgrants
  | sendData msg slack => exact hs.sendData hwf msg slack
  | transfer k w n stale session session' hk h =>
    rcases Session.transfer_eq_some h with ⟨write, hwrite, _, _, heq⟩
    have haccepted := hwf.accepted_of_write hk hwrite
    have haccepted' : session'.accepted = true := by rw [heq, haccepted]
    apply hs.replaced hwf hk haccepted haccepted' (by rw [heq]) (fun _ h => h)
    intro _ hlive
    rw [heq]
    exact hlive
  | kept k w error session session' hk h herror =>
    rcases Session.complete_eq_some h with ⟨write, hwrite, _, heq⟩
    have haccepted := hwf.accepted_of_write hk hwrite
    have haccepted' : session'.accepted = true := by rw [heq, haccepted]
    apply hs.replaced hwf hk haccepted haccepted' (by rw [heq]) (fun _ h => h)
    intro _ hlive
    -- an error that is not the releasing one comes after another error only
    have hsuccess : error.failed = false := by
      by_contra hfailed
      cases hgives session hk (by simpa using hfailed) with
      | inl hdead => simp [hlive] at hdead
      | inr htwo => exact herror htwo
    simpa [heq, Session.hasFailed, hsuccess] using hlive
  | released k w error session session' hk h herror hslot =>
    rcases Session.complete_eq_some h with ⟨write, hwrite, _, heq⟩
    have haccepted := hwf.accepted_of_write hk hwrite
    have haccepted' : session'.accepted = true := by rw [heq, haccepted]
    apply hs.replaced hwf hk haccepted haccepted' (by rw [heq])
    . intro i hi
      exact ((inUse_release hslot i).mp hi).right
    . intro hused _
      exact absurd rfl ((inUse_release hslot session.serialNum).mp hused).left

theorem NoLeak.length_le (hs : s.NoLeak) (hempty : s.accepting = [])
    (hfull : ∀ i, i < s.pool.arrIoServices.length → s.pool.InUse i)
    : s.pool.arrIoServices.length ≤ 1 + s.liveCount := by
  have hsub : List.range s.pool.arrIoServices.length ⊆
      s.serialNum :: (s.sessions.filter live).map Session.serialNum := by
    intro i hi
    rw [List.mem_cons]
    cases hs i (hfull i (List.mem_range.mp hi)) with
    | inl heq => exact .inl heq
    | inr hheld =>
      rcases hheld with ⟨j, x, ⟨hget, hx⟩, heq⟩
      simp only [hempty, List.not_mem_nil, false_or] at hx
      refine .inr (List.mem_map.mpr ⟨x, ?_, heq⟩)
      rw [List.mem_filter]
      exact ⟨List.mem_of_getElem? hget, by simp [live, hx]⟩
  have hle := List.Nodup.length_le_of_subset List.nodup_range hsub
  simp only [List.length_range, List.length_cons, List.length_map] at hle
  unfold liveCount
  omega

theorem liveCount_armed (sn : Nat) (ref : ServiceRef) (pool : IoServicePool)
    : (s.armed sn ref pool).liveCount = s.liveCount := by
  simp [liveCount, armed, live, Session.new]

theorem NoLeak.length_armed_le (hs : s.NoLeak) (hwf : s.Wf) (hempty : s.accepting = []) {sn : Nat}
    {ref : ServiceRef} {pool : IoServicePool} (hgrants : s.pool.Grants sn ref pool) (bound : Nat)
    (hbound : s.pool.arrIoServices.length ≤ bound)
    : (s.armed sn ref pool).pool.arrIoServices.length ≤
        max bound (2 + (s.armed sn ref pool).liveCount) := by
  rw [liveCount_armed]
  simp only [Server.armed]
  cases hgrants with
  | fresh ref hnext href =>
    simp only [IoServicePool.withStatus]
    omega
  | idle i ref hnext hidle href =>
    simp only [IoServicePool.withStatus]
    omega
  | grow hnext hfull =>
    have hle := hs.length_le hempty (fun i hi => inUse_of_full hwf.pool.lockstep hfull hi)
    simp only [IoServicePool.grown, List.length_append, List.length_singleton]
    omega

-- Once no accept is pending any more, the pool does not grow and leaks are of no consequence.
structure Bounded (s : Server) (threadCnt most : Nat) : Prop where
  wf : s.Wf
  length : s.pool.arrIoServices.length ≤ max threadCnt (2 + most)
  noLeak : s.accepting ≠ [] → s.NoLeak

theorem Bounded.noLeak_of_steps {threadCnt most : Nat} {event : ServerEvent}
    (hs : s.Bounded threadCnt most) (hgives : s.GivesBack event) (h : Steps s event t)
    (hpending : t.accepting ≠ [])
    : t.NoLeak := by
  have haccept : s.AcceptSucceeds event ∧ s.accepting ≠ [] := by
    cases h with
    | refused i error localEndpoint hi herror =>
      exact absurd (hs.wf.accepting_eq (List.getElem?_eq_getElem hi)).right hpending
    | thrown i k error localEndpoint session hi hk herror hstart =>
      exact absurd (hs.wf.accepting_eq hi).right hpending
    | armed i k error session sn ref pool hi hk herror hgrants =>
      refine ⟨herror, ?_⟩
      simp [(hs.wf.accepting_eq hi).left]
    | sendData msg slack => exact ⟨trivial, hpending⟩
    | transfer k w n stale session session' hk h => exact ⟨trivial, hpending⟩
    | kept k w error session session' hk h herror => exact ⟨trivial, hpending⟩
    | released k w error session session' hk h herror hslot => exact ⟨trivial, hpending⟩
  exact (hs.noLeak haccept.right).steps hs.wf hgives haccept.left h

theorem Bounded.length_of_steps {threadCnt most : Nat} {event : ServerEvent}
    (hs : s.Bounded threadCnt most) (h : Steps s event t)
    : t.pool.arrIoServices.length ≤ max threadCnt (2 + max most t.liveCount) := by
  have hlength := hs.length
  have hle : s.pool.arrIoServices.length ≤ max threadCnt (2 + max most t.liveCount) := by omega
  cases h with
  | refused i error localEndpoint hi herror => exact hle
  | thrown i k error localEndpoint session hi hk herror hstart => exact hle
  | armed i k error session sn ref pool hi hk herror hgrants =>
    have hone := hs.wf.accepting_eq hi
    have hnoLeak : s.NoLeak := hs.noLeak (by simp [hone.left])
    have hadmitted : (s.admitted i k (started session)).NoLeak :=
      hnoLeak.admitted hs.wf hi hk rfl rfl rfl
    have hwf : (s.admitted i k (started session)).Wf := hs.wf.admitted hi hk rfl
    have hbound := hadmitted.length_armed_le hwf hone.right hgrants _ hlength
    omega
  | sendData msg slack => exact hle
  | transfer k w n stale session session' hk h => exact hle
  | kept k w error session session' hk h herror => exact hle
  | released k w error session session' hk h herror hslot => exact hle

theorem Bounded.steps {threadCnt most : Nat} {event : ServerEvent} (hs : s.Bounded threadCnt most)
    (hgives : s.GivesBack event) (h : Steps s event t)
    : t.Bounded threadCnt (max most t.liveCount) where
  wf := hs.wf.steps h
  length := hs.length_of_steps h
  noLeak := hs.noLeak_of_steps hgives h

theorem noLeak_bare {threadCnt : Nat} {ref : ServiceRef} {pool : IoServicePool}
    (hgrants : (IoServicePool.new threadCnt).Grants 0 ref pool)
    : (bare ref pool).NoLeak := by
  intro i hi
  cases (hgrants.inUse_iff (lockstep_new threadCnt) i).mp hi with
  | inl heq => exact .inl heq
  | inr hnew => exact absurd hnew (not_inUse_new threadCnt i)

theorem length_of_grants_new {threadCnt sn : Nat} {ref : ServiceRef} {pool : IoServicePool}
    (hgrants : (IoServicePool.new threadCnt).Grants sn ref pool)
    : pool.arrIoServices.length ≤ max threadCnt 2 := by
  have hlength := length_new threadCnt
  have hzero := next_new threadCnt
  cases hgrants with
  | fresh ref hnext href =>
    simp only [IoServicePool.withStatus]
    omega
  | idle i ref hnext hidle href =>
    simp only [IoServicePool.withStatus]
    omega
  | grow hnext hfull =>
    simp only [IoServicePool.grown, List.length_append, List.length_singleton]
    omega

theorem bounded_new {threadCnt : Nat} (hnew : new threadCnt = some s)
    : s.NoLeak ∧ s.Bounded threadCnt s.liveCount := by
  have hwf := wf_of_run hnew (run_nil s)
  rcases new_eq threadCnt with ⟨ref, pool, sn, ref', pool', hgrants, hgrants', heq⟩
  rw [hnew] at heq
  simp only [Option.some.injEq] at heq
  subst heq
  have hbare := wf_bare ref (hgrants.regular (regular_new threadCnt))
  have hnoLeak := (noLeak_bare hgrants).armed hbare hgrants'
  have hlength := (noLeak_bare hgrants).length_armed_le hbare rfl hgrants' _
    (length_of_grants_new hgrants)
  refine ⟨hnoLeak, hwf, ?_, fun _ => hnoLeak⟩
  omega

/--
If every session gives its slot back when its first error is reported, the pool has no more services
and threads than it was built with or than the sessions alive at one time made necessary. If
moreover no accept fails, every slot in use belongs to someone at every time.
-/
theorem length_le_of_givesBack (threadCnt : Nat) (events : List ServerEvent) (s t : Server)
    (hnew : new threadCnt = some s) (hrun : run step s events = some t)
    (hevents : Meets step GivesBack s events)
    : t.pool.arrIoServices.length ≤ max threadCnt (2 + peak step liveCount s events) ∧
        t.pool.arrThreads.length = t.pool.arrIoServices.length ∧
        (Meets step AcceptSucceeds s events → t.NoLeak) := by
  have hinit := bounded_new hnew
  have hbounded : t.Bounded threadCnt (peak step liveCount s events) := by
    refine inv_peak_of_run (I := fun s most => s.Bounded threadCnt most) ?_ hinit.right hevents hrun
    intro s event t most hs hgives hstep
    exact hs.steps hgives (hs.wf.step hstep).left
  refine ⟨hbounded.length, hbounded.wf.pool.lockstep.threads, ?_⟩
  intro haccepts
  have hleak : t.Wf ∧ t.NoLeak := by
    refine inv_of_run (I := fun s => s.Wf ∧ s.NoLeak) ?_ ⟨hinit.right.wf, hinit.left⟩
      (hevents.and haccepts) hrun
    intro s event t hs hevent hstep
    rcases hs.left.step hstep with ⟨hsteps, ht⟩
    exact ⟨ht, hs.right.steps hs.left hevent.left hevent.right hsteps⟩
  exact hleak.right

theorem length_le_of_givesBack_of_reuse
    : ∃ s, new 0 = some s ∧ ∃ t, run step s
        [.accept 0 .success (some .v4), .sendData [1] [], .written 0 0 ⟨2⟩,
          .accept 0 .success (some .v4)] = some t ∧
      t.pool.arrIoServices.length ≤ max 0 (2 + peak step liveCount s
        [.accept 0 .success (some .v4), .sendData [1] [], .written 0 0 ⟨2⟩,
          .accept 0 .success (some .v4)]) ∧ t.NoLeak := by
  have hnew : new 0 = some ((new 0).get (by decide)) := by simp
  have hrun : run step ((new 0).get (by decide))
      [.accept 0 .success (some .v4), .sendData [1] [], .written 0 0 ⟨2⟩,
        .accept 0 .success (some .v4)] =
        some ((run step ((new 0).get (by decide))
          [.accept 0 .success (some .v4), .sendData [1] [], .written 0 0 ⟨2⟩,
            .accept 0 .success (some .v4)]).get (by decide)) := by
    simp
  rcases length_le_of_givesBack 0 _ _ _ hnew hrun (by decide) with ⟨hlength, _, hnoLeak⟩
  exact ⟨_, hnew, _, hrun, hlength, hnoLeak (by decide)⟩

-- The connection of session 0 is reset, its slot 1 is never used again.
theorem not_length_le_of_reset
    : ∃ s, new 0 = some s ∧ ∃ t, run step s
        [.accept 0 .success (some .v4), .sendData [1] [], .written 0 0 ⟨10054⟩,
          .accept 0 .success (some .v4)] = some t ∧
      ¬ t.pool.arrIoServices.length ≤ max 0 (2 + peak step liveCount s
        [.accept 0 .success (some .v4), .sendData [1] [], .written 0 0 ⟨10054⟩,
          .accept 0 .success (some .v4)]) := by
  have hnew : new 0 = some ((new 0).get (by decide)) := by simp
  refine ⟨_, hnew, (run step ((new 0).get (by decide))
    [.accept 0 .success (some .v4), .sendData [1] [], .written 0 0 ⟨10054⟩,
      .accept 0 .success (some .v4)]).get (by decide), by simp, ?_⟩
  decide

end Server
