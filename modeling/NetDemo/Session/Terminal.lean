import NetDemo.Lib.Transition
import NetDemo.Session.Handlers

/-!
This module contains what a `Session` does after an error: which of its handlers go on with another
read or write.
-/

namespace Receiver

open ExceptState Transition

-- Also if the invocation throws.
def ArmsNothing (w : SizeT) (s : Receiver) (i : Invocation) : Prop :=
  i.error.failed → (exec (invoke w i) s).2.armed = s.armed

def StopsReading (_ : Receiver) (i : Invocation) : Prop :=
  match i with
  | .analyseHandler error _ out => error.failed → error.value = 2 ∨ out.available = none
  | _ => True

instance (s : Receiver) (i : Invocation) : Decidable (StopsReading s i) :=
  match i with
  | .analyseHandler _ _ _ => inferInstanceAs (Decidable (_ → _))
  | .initHandler _ | .doneHandler _ _ | .readHandler _ _ _ | .writeHandler _ => isTrue trivial

theorem armed_analyseHandler {s : Receiver} {error : ErrorCode} {out : Outside}
    (herror : error.failed = true)
    : (exec (analyseHandler error out) s).2.armed = s.armed ↔
        error.value = 2 ∨ out.available = none := by
  unfold analyseHandler
  by_cases hclosed : error.value = 2
  . simp [herror, hclosed, sig]
  . cases hout : out.available with
    | none => simp [hclosed, useMsg, answer]
    | some n => simp [hclosed, useMsg, answer, clearMsg, arm]

theorem armsNothing_iff_stopsReading (w : SizeT) (s : Receiver) (i : Invocation)
    : ArmsNothing w s i ↔ StopsReading s i := by
  unfold ArmsNothing
  cases i with
  | initHandler error =>
    by_cases hclosed : error.value = 2
    . simp [StopsReading, invoke, initHandler, hclosed, sig]
    . simp [StopsReading, invoke, initHandler, hclosed]
  | analyseHandler error chunk out =>
    apply imp_congr_right
    intro herror
    simp only [invoke, exec_bind, exec_deliver]
    exact armed_analyseHandler (s := s.written chunk) herror
  | doneHandler error out =>
    simp only [Invocation.error, StopsReading, invoke, iff_true]
    intro herror
    simp [doneHandler, herror, noted]
  | readHandler error chunk out =>
    simp only [Invocation.error, StopsReading, invoke, iff_true]
    intro herror
    simp [readHandler, herror, written]
  | writeHandler error =>
    simp only [Invocation.error, StopsReading, invoke, iff_true]
    intro herror
    simp [writeHandler, herror]

/--
In a run over the handlers, no invocation with an error goes on with another read or write if and
only if `analyse_handler` gets no error but the end of the file while the socket still answers.
-/
theorem armsNothing_iff (w : SizeT) (s : Receiver) (invocations : List Invocation)
    : Meets (step w) (ArmsNothing w) s invocations ↔ Meets (step w) StopsReading s invocations := by
  apply meets_congr_of_meets (b := fun _ _ => True) (I := fun _ => True)
  . simp
  . intro s i _ _
    apply armsNothing_iff_stopsReading
  . trivial
  . apply Meets.of_forall
    simp

-- The connection was reset, and the next read is armed on the same socket.
theorem not_armsNothing_of_reset
    : ¬ Meets (step .w32) (ArmsNothing .w32) (new 0 34 false 1)
        [.analyseHandler ⟨10054⟩ [] ⟨[], none, some 0⟩] := by
  intro h
  have hstops := (armsNothing_iff_stopsReading _ _ _).mp h.head
  exact absurd hstops (by decide)

/--
As long as the socket answers, the completions of a failed connection follow each other without end.
-/
theorem analyseHandler_spins (w : SizeT) (error : ErrorCode) (out : Outside) (s : Receiver)
    (hvalue : error.value ≠ 2) (hout : out.available ≠ none)
    (harmed : s.armed = [.analyseRead 34]) (n : Nat)
    : ∃ t, run (loopStep w) s (List.replicate n (.analyseHandler error [] out)) = some t ∧
        t.armed = [.analyseRead 34] := by
  rcases Option.ne_none_iff_exists'.mp hout with ⟨bytes, hbytes⟩
  induction n generalizing s with
  | zero => exact ⟨s, rfl, harmed⟩
  | succ n ih =>
    have hstep : ∃ t, loopStep w s (.analyseHandler error [] out) = some t ∧
        t.armed = [.analyseRead 34] := by
      simp [loopStep, harmed, step, invoke, analyseHandler, hvalue, useMsg, answer, hbytes,
        clearMsg, arm, written]
    rcases hstep with ⟨u, hu, harmed⟩
    rcases ih u harmed with ⟨t, ht, harmed⟩
    refine ⟨t, ?_, harmed⟩
    rw [List.replicate_succ, run_cons_eq_some]
    exact ⟨u, hu, ht⟩

end Receiver
