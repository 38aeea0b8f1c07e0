import NetDemo.Server.Invariant

/-!
This module contains the accept loop: when it goes on and when it ends for good.
-/

namespace Server

open Transition

def OnePending (s : Server) : Prop :=
  s.accepting.length = 1

-- The accept is a success and `Session::start` returns.
def Rearms (_ : Server) (event : ServerEvent) : Prop :=
  match event with
  | .accept _ error localEndpoint => error.failed = false ∧ localEndpoint = some .v4
  | .sendData _ _ => True
  | .transfer _ _ _ _ => True
  | .written _ _ _ => True

instance (s : Server) : Decidable s.OnePending :=
  inferInstanceAs (Decidable (_ = _))

instance (s : Server) (event : ServerEvent) : Decidable (Rearms s event) :=
  match event with
  | .accept _ error localEndpoint =>
    inferInstanceAs (Decidable (error.failed = false ∧ localEndpoint = some .v4))
  | .sendData _ _ => isTrue trivial
  | .transfer _ _ _ _ => isTrue trivial
  | .written _ _ _ => isTrue trivial

variable {s t : Server} {event : ServerEvent}

theorem onePending_of_rearms (hwf : s.Wf) (hs : s.OnePending) (hevent : Rearms s event)
    (hsteps : Steps s event t)
    : t.OnePending := by
  cases hsteps with
  | refused i error localEndpoint hi herror => simp [Rearms, herror] at hevent
  | thrown i k error localEndpoint session hi hk herror hstart => exact absurd hevent.right hstart
  | armed i k error session sn ref pool hi hk herror hgrants =>
    simp [OnePending, armed, admitted, (hwf.accepting_eq hi).right]
  | sendData msg slack => exact hs
  | transfer k w n stale session session' hk h => exact hs
  | kept k w error session session' hk h herror => exact hs
  | released k w error session session' hk h herror hslot => exact hs

theorem rearms_of_onePending (hwf : s.Wf) (ht : t.OnePending) (hsteps : Steps s event t)
    : Rearms s event := by
  cases hsteps with
  | refused i error localEndpoint hi herror =>
    have hempty := (hwf.accepting_eq (List.getElem?_eq_getElem hi)).right
    simp [OnePending, hempty] at ht
  | thrown i k error localEndpoint session hi hk herror hstart =>
    simp [OnePending, admitted, (hwf.accepting_eq hi).right] at ht
  | armed i k error session sn ref pool hi hk herror hgrants => exact ⟨herror, rfl⟩
  | sendData msg slack => trivial
  | transfer k w n stale session session' hk h => trivial
  | kept k w error session session' hk h herror => trivial
  | released k w error session session' hk h herror hslot => trivial

theorem onePending_new {threadCnt : Nat} (hnew : new threadCnt = some s) : s.OnePending := by
  rcases new_eq threadCnt with ⟨ref, pool, sn, ref', pool', _, _, heq⟩
  rw [hnew] at heq
  simp only [Option.some.injEq] at heq
  subst heq
  rfl

/--
After every event of a run exactly one `async_accept` is pending if and only if every accept of the
run is a success whose `Session::start` returns.
-/
theorem onePending_iff_rearms (threadCnt : Nat) (events : List ServerEvent) (s t : Server)
    (hnew : new threadCnt = some s) (hrun : run step s events = some t)
    : Along step OnePending s events ↔ Meets step Rearms s events := by
  have hinit : s.Wf ∧ s.OnePending := ⟨wf_of_run hnew (run_nil s), onePending_new hnew⟩
  refine along_iff_meets (I := fun s => s.Wf ∧ s.OnePending) ?_ ?_ ?_ hinit hrun
  . intro s hs
    exact hs.right
  . intro s event t hs hevent hstep
    rcases hs.left.step hstep with ⟨hsteps, ht⟩
    exact ⟨ht, onePending_of_rearms hs.left hs.right hevent hsteps⟩
  . intro s event t hs hstep ht
    apply rearms_of_onePending hs.left ht
    exact (hs.left.step hstep).left

theorem onePending_iff_rearms_of_two
    : ∃ s t, new 1 = some s ∧
        run step s [.accept 0 .success (some .v4), .accept 0 .success (some .v4)] = some t ∧
        Along step OnePending s
          [.accept 0 .success (some .v4), .accept 0 .success (some .v4)] := by
  have hnew : new 1 = some ((new 1).get (by decide)) := by simp
  have hrun : run step ((new 1).get (by decide))
      [.accept 0 .success (some .v4), .accept 0 .success (some .v4)] =
        some ((run step ((new 1).get (by decide))
          [.accept 0 .success (some .v4), .accept 0 .success (some .v4)]).get (by decide)) := by
    simp
  refine ⟨_, _, hnew, hrun, ?_⟩
  apply (onePending_iff_rearms 1 _ _ _ hnew hrun).mpr
  decide

-- The peer aborts the connection before it is accepted, or it is gone when `Session::start` asks.
theorem not_onePending_of_failure
    : ∃ s, new 1 = some s ∧
        (∃ t, run step s [.accept 0 ⟨10053⟩ none] = some t ∧ ¬ t.OnePending) ∧
        ∃ t, run step s [.accept 0 .success none] = some t ∧ ¬ t.OnePending := by
  have hnew : new 1 = some ((new 1).get (by decide)) := by simp
  refine ⟨_, hnew, ?_, ?_⟩
  . refine ⟨(run step ((new 1).get (by decide)) [.accept 0 ⟨10053⟩ none]).get (by decide), ?_, ?_⟩
    . simp
    . decide
  . refine ⟨(run step ((new 1).get (by decide)) [.accept 0 .success none]).get (by decide), ?_, ?_⟩
    . simp
    . decide

end Server
