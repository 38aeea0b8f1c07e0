import Mathlib.Algebra.Group.Nat.Defs
import NetDemo.Session.Loop

/-!
This module contains the counter of the receive loop in all its states and the replies with which
`read_handler` acknowledges what has come in.
-/

namespace Receiver

open ExceptState Transition

-- The operation that is armed completes.
def Completes (s : Receiver) (i : Invocation) : Prop :=
  match s.armed, i with
  | [.read _], .readHandler _ _ _ | [.write _], .writeHandler _ => True
  | _, _ => False

-- `remote_endpoint` does not throw if it is called.
def Answered (i : Invocation) : Prop :=
  match i with
  | .readHandler _ _ out => out.remoteEndpoint ≠ none
  | .initHandler _ | .analyseHandler _ _ _ | .doneHandler _ _ | .writeHandler _ => True

-- After a read, the counter is given to `async_write` unless it has fallen below zero.
def Acknowledges (w : SizeT) (s : Receiver) (i : Invocation) : Prop :=
  i.isRead → ∀ t, loopStep w s i = some t →
    t.armed = if 0 ≤ t.sumSize.toInt then [.write (replyArray t.sumSize)] else []

section Acked

variable {total : Int} {c : Nat}

theorem acked_pairwise (hc : 1 ≤ c) (j : Nat) : (acked total c j).Pairwise (· > ·) := by
  unfold acked
  apply List.Pairwise.filter
  rw [List.pairwise_map]
  apply List.Pairwise.imp _ List.pairwise_lt_range
  intro a b hab
  have : (a + 1) * c < (b + 1) * c := by
    apply Nat.mul_lt_mul_of_pos_right
    . omega
    . omega
  have : ((a : Int) + 1) * c < (b + 1) * c := by exact_mod_cast this
  omega

theorem mem_acked {j : Nat} {v : Int} (h : v ∈ acked total c j) : 0 ≤ v ∧ v ≤ total := by
  unfold acked at h
  rw [List.mem_filter, List.mem_map] at h
  rcases h with ⟨⟨i, _, hv⟩, hnonneg⟩
  refine ⟨by simpa using hnonneg, ?_⟩
  have : 0 ≤ ((i : Int) + 1) * c := by
    exact_mod_cast Nat.zero_le ((i + 1) * c)
  omega

end Acked

section InLoop

variable {s t : Receiver} {w : SizeT} {i : Invocation} {total : Int} {c : Nat}

theorem InLoop.loopStep_ne_none (hs : InLoop total c s) (w : SizeT) (hcompletes : Completes s i)
    (hfills : Fills s i) (hanswered : Answered i)
    : loopStep w s i ≠ none := by
  cases hs with
  | reading j hcounts hread hleft hdone =>
    cases i with
    | readHandler error chunk out =>
      rcases Option.ne_none_iff_exists'.mp hanswered with ⟨address, hout⟩
      have herror : error.failed = false := hfills.left
      have hsize : chunk.length ≤ c := by
        rw [← hcounts.readSize]
        exact Nat.le_of_eq hfills.right
      rw [loopStep_readHandler hread hsize, step_readHandler_some herror hout]
      simp
    | _ => simp [Completes, hread] at hcompletes
  | replying j msg hcounts hwrite hleft hdone =>
    cases i with
    | writeHandler error =>
      rw [loopStep_writeHandler hwrite, step_writeHandler]
      simp
    | _ => simp [Completes, hwrite] at hcompletes
  | ended j hcounts hidle hleft hover hdone => simp [Completes, hidle] at hcompletes

theorem InLoop.acknowledges (hs : InLoop total c s) (hfills : Fills s i)
    : Acknowledges w s i := by
  intro hread t hstep
  rcases hs.step_cases hfills hstep with ⟨j, hcounts, hleft, hdone, hcases⟩
  rcases hcases with ⟨chunk, beyond, address, _, _, hchunk, ht⟩ | ⟨msg, _, hwrite, _⟩
  . rw [ht]
    apply armed_afterRead
    rfl
  . exact absurd hread hwrite

end InLoop

section Run

variable {w : SizeT} {total : Int} {c : Nat}

def reads (invocations : List Invocation) : Nat :=
  invocations.countP Invocation.isRead

theorem received_of_run (hc : c ≤ 1024) {invocations : List Invocation}
    : ∀ {s t : Receiver}, InLoop total c s → Meets (loopStep w) Fills s invocations →
        run (loopStep w) s invocations = some t →
        t.received = s.received + reads invocations * c := by
  induction invocations with
  | nil =>
    intro s t _ _ hrun
    simp only [run_nil, Option.some.injEq] at hrun
    simp [hrun, reads]
  | cons i invocations ih =>
    intro s t hs hmeets hrun
    rcases (run_cons_eq_some _ _ _ _).mp hrun with ⟨u, hu, hrun⟩
    rw [meets_cons hu] at hmeets
    rw [ih (hs.step hc hmeets.left hu) hmeets.right hrun, hs.received_of_step hmeets.left hu]
    unfold reads
    rw [List.countP_cons, Nat.add_mul]
    split
    . omega
    . omega

theorem acknowledges_of_run (hc : c ≤ 1024) {s : Receiver} {invocations : List Invocation}
    (hs : InLoop total c s) (hfills : Meets (loopStep w) Fills s invocations)
    : Meets (loopStep w) (Acknowledges w) s invocations := by
  apply (meets_congr_of_meets (c := fun _ _ => True) (I := InLoop total c) _ _ hs hfills).mp
  . apply Meets.of_forall
    simp
  . intro s i t hs hi _ hstep
    exact hs.step hc hi hstep
  . intro s i hs hi
    simp [hs.acknowledges (w := w) hi]

theorem length_le_of_run (hc : 1 ≤ c) (hc' : c ≤ 1024) {s t : Receiver}
    {invocations : List Invocation} (hs : InLoop total c s)
    (hfills : Meets (loopStep w) Fills s invocations)
    (hrun : run (loopStep w) s invocations = some t)
    : invocations.length ≤ left c s := by
  have hlength : invocations.length + left c t ≤ left c s := by
    apply length_add_le_of_run (I := InLoop total c) _ _ hs hfills hrun
    . intro s i t hs hi hstep
      exact hs.step hc' hi hstep
    . intro s i t hs hi hstep
      exact hs.left_lt hc hc' hi hstep
  omega

theorem InLoop.counts {s : Receiver} (hs : InLoop total c s)
    : ∃ j, Counts total c j s := by
  cases hs with
  | reading j hcounts => exact ⟨j, hcounts⟩
  | replying j msg hcounts => exact ⟨j, hcounts⟩
  | ended j hcounts => exact ⟨j + 1, hcounts⟩

theorem counts_of_run (hc : 1 ≤ c) (hc' : c ≤ 1024) {s t : Receiver}
    {invocations : List Invocation} (hs : InLoop total c s) (hnone : s.received = 0)
    (hfills : Meets (loopStep w) Fills s invocations)
    (hrun : run (loopStep w) s invocations = some t)
    : Counts total c (reads invocations) t := by
  rcases (inLoop_of_run hc' hs hfills hrun).counts with ⟨j, hcounts⟩
  have hreceived := received_of_run hc' hs hfills hrun
  rw [hnone, Nat.zero_add, hcounts.received] at hreceived
  rw [← Nat.eq_of_mul_eq_mul_right hc hreceived]
  exact hcounts

theorem InLoop.doneAt {s : Receiver} (hs : InLoop total c s)
    : (s.armed = [] → s.doneAt.length = 1) ∧ (s.armed ≠ [] → s.doneAt = []) := by
  cases hs with
  | reading j hcounts harmed hleft hdone => simp [harmed, hdone]
  | replying j msg hcounts harmed hleft hdone => simp [harmed, hdone]
  | ended j hcounts harmed hleft hover hdone => simp [harmed, hdone]

/--
The counter is exact in every state of the loop, what `async_write` is given has its values down to
the last one that is not negative, and the loop ends with one call of `done_handler`. Only a call of
`remote_endpoint` can keep it from that.
-/
theorem counter_exact (w : SizeT) (sumSize : Int32) (maxSize : UInt32) (callback : Bool) (sn : Nat)
    (hsum : 0 ≤ sumSize.toInt) (hmax : 1 ≤ maxSize.toNat) (invocations : List Invocation)
    (s : Receiver)
    (hrun : run (loopStep w) (start sumSize maxSize callback sn) invocations = some s)
    (hfills : Meets (loopStep w) Fills (start sumSize maxSize callback sn) invocations)
    : s.sumSize.toInt = sumSize.toInt - reads invocations * bufferSize maxSize ∧
        s.replies = (acked sumSize.toInt (bufferSize maxSize) (reads invocations)).map replyText ∧
        (acked sumSize.toInt (bufferSize maxSize) (reads invocations)).Pairwise (· > ·) ∧
        (∀ reply, reply ∈ s.replies → reply.length + 1 ≤ replySize) ∧
        Meets (loopStep w) (Acknowledges w) (start sumSize maxSize callback sn) invocations ∧
        invocations.length ≤ 2 * (sumSize.toInt.toNat / bufferSize maxSize) + 1 ∧
        (s.armed = [] → s.doneAt.length = 1) ∧
        (s.armed ≠ [] → s.doneAt = [] ∧ ∃ i t, Fills s i ∧ loopStep w s i = some t) ∧
        ∀ i, Completes s i → Fills s i → Answered i → loopStep w s i ≠ none := by
  have hc : 1 ≤ bufferSize maxSize := by
    unfold bufferSize
    omega
  have hc' : bufferSize maxSize ≤ 1024 := by
    unfold bufferSize
    omega
  have hstart := inLoop_start sumSize maxSize callback sn hsum
  have hs := inLoop_of_run hc' hstart hfills hrun
  have hcounts := counts_of_run hc hc' hstart rfl hfills hrun
  refine ⟨hcounts.sumSize, hcounts.replies, acked_pairwise hc _, ?_, ?_, ?_, hs.doneAt.left, ?_, ?_⟩
  . intro reply hreply
    rw [hcounts.replies] at hreply
    rcases List.mem_map.mp hreply with ⟨v, hv, heq⟩
    rcases mem_acked hv with ⟨hnonneg, hle⟩
    have hlt := sumSize.toInt_lt
    have hlength := length_replyText (by omega : -2 ^ 31 ≤ v) (by omega)
    rw [← heq]
    unfold replySize
    omega
  . exact acknowledges_of_run hc' hstart hfills
  . exact length_le_of_run hc hc' hstart hfills hrun
  . intro harmed
    exact ⟨hs.doneAt.right harmed, hs.progress w harmed⟩
  . intro i hcompletes hi hanswered
    exact hs.loopStep_ne_none w hcompletes hi hanswered

-- Three bytes in chunks of two: one reply, and a last read that asks for too much.
theorem counter_exact_of_two_reads
    : ∃ s, run (loopStep .w64) (start 3 2 true 1)
          [.readHandler .success [65, 66] ⟨[], some "10.0.0.1", none⟩, .writeHandler .success,
            .readHandler .success [67, 68] ⟨[], some "10.0.0.1", none⟩] = some s ∧
        s.sumSize.toInt = -1 ∧ s.replies = ["001:1."] ∧ s.armed = [] ∧ s.doneAt.length = 1 := by
  have hsome : (run (loopStep .w64) (start 3 2 true 1)
      [.readHandler .success [65, 66] ⟨[], some "10.0.0.1", none⟩, .writeHandler .success,
        .readHandler .success [67, 68] ⟨[], some "10.0.0.1", none⟩]).map armed = some [] := by
    decide +kernel
  rcases Option.map_eq_some_iff.mp hsome with ⟨s, hrun, harmed⟩
  rcases counter_exact .w64 3 2 true 1 (by decide) (by decide) _ s hrun (by decide +kernel)
    with ⟨hsum, hreplies, _, _, _, _, hdone, _⟩
  refine ⟨s, hrun, hsum, ?_, harmed, hdone harmed⟩
  rw [hreplies]
  decide

-- A chunk of 1023 letters, and the run in which `n` of them are acknowledged.
def letters : Bytes :=
  List.replicate 1023 65

def lettersRun (n : Nat) : List Invocation :=
  match n with
  | 0 => []
  | n + 1 =>
    .readHandler .success letters ⟨[], some "10.0.0.1", none⟩ :: .writeHandler .success ::
      lettersRun n

structure Filling (k : Nat) (s : Receiver) : Prop where
  armed : s.armed = [.read 1023]
  msg : s.msg = .zero 1024
  callback : s.callback = true
  readSize : s.readSize = 1023
  sumSize : s.sumSize.toInt = 600000 - k * 1023
  currentMsg : s.currentMsg.length = k * 1023
  doneAt : s.doneAt = []

theorem length_letters : letters.length = 1023 := by
  exact List.length_replicate

theorem text_letters : CharArray.text letters = letters := by
  rw [CharArray.text_eq_self_iff]
  intro hmem
  exact absurd (List.eq_of_mem_replicate hmem) (by decide)

theorem Filling.appended {k : Nat} {s : Receiver} (hs : Filling k s)
    : ((s.idle.written letters).appended []).currentMsg.length = (k + 1) * 1023 := by
  change (s.currentMsg ++ (s.msg.write letters).cString []).length = _
  rw [hs.msg, CharArray.cString_write_zero (by rw [length_letters]; decide), text_letters,
    List.length_append, hs.currentMsg, length_letters]
  omega

theorem Filling.round {k : Nat} {s : Receiver} (hs : Filling k s) (hk : k < 512)
    : ∃ t, run (loopStep .w32) s (lettersRun 1) = some t ∧
        Meets (loopStep .w32) Fills s (lettersRun 1) ∧ Filling (k + 1) t := by
  let u := (s.idle.written letters).taken .w32 letters.length [] "10.0.0.1"
  have hshort : ¬ (((s.idle.written letters).appended []).currentMsg.length > flushSize ∧
      ((s.idle.written letters).appended []).callback) := by
    rw [hs.appended]
    unfold flushSize
    omega
  have hu : u = ((s.idle.written letters).appended []).cleared.counted .w32 letters.length := by
    change (Receiver.flushed _ _).cleared.counted _ _ = _
    rw [flushed, handedIf_of_not _ hshort]
  have hleft : (s.idle.written letters).sumSize.toInt = 600000 - k * 1023 := hs.sumSize
  have hread : loopStep .w32 s (.readHandler .success letters ⟨[], some "10.0.0.1", none⟩) =
      some u.replied := by
    rw [loopStep_readHandler hs.armed (Nat.le_of_eq length_letters), step_readHandler_some rfl rfl]
    rcases afterRead_cases (w := .w32) (s.idle.written letters) letters.length [] "10.0.0.1"
      (by omega) (by rw [length_letters]; decide) with ⟨_, ⟨hneg, _⟩ | ⟨_, hafter⟩⟩
    . rw [hleft, length_letters] at hneg
      omega
    . rw [hafter]
  have hwrite : loopStep .w32 u.replied (.writeHandler .success) =
      some { u.replied with armed := [.read s.readSize] } := by
    have harmed : u.replied.armed = [.write (replyArray u.sumSize)] := rfl
    rw [loopStep_writeHandler harmed, step_writeHandler]
    rfl
  refine ⟨{ u.replied with armed := [.read s.readSize] }, ?_, ?_, ?_⟩
  . simp [lettersRun, run_cons_eq_some, hread, hwrite]
  . simp only [lettersRun]
    rw [meets_cons hread, meets_cons hwrite]
    exact ⟨⟨rfl, length_letters.trans hs.readSize.symm⟩, ⟨rfl, trivial⟩, trivial⟩
  . constructor
    case armed => rw [hs.readSize]
    case msg => rfl
    case callback => exact hs.callback
    case readSize => exact hs.readSize
    case sumSize =>
      have hsum : u.sumSize.toInt = (s.idle.written letters).sumSize.toInt - letters.length := by
        apply (afterRead_cases _ _ _ _ _ _).left
        . omega
        . rw [length_letters]
          decide
      change u.sumSize.toInt = _
      rw [hsum, hleft, length_letters]
      push_cast
      omega
    case currentMsg =>
      change u.currentMsg.length = _
      rw [hu]
      exact hs.appended
    case doneAt => exact hs.doneAt

theorem Filling.exists_run {n : Nat}
    : ∀ {k : Nat} {s : Receiver}, Filling k s → k + n ≤ 512 →
        ∃ t, run (loopStep .w32) s (lettersRun n) = some t ∧
          Meets (loopStep .w32) Fills s (lettersRun n) ∧ Filling (k + n) t := by
  induction n with
  | zero =>
    intro k s hs _
    exact ⟨s, rfl, trivial, hs⟩
  | succ n ih =>
    intro k s hs hk
    rcases hs.round (by omega) with ⟨v, hrun, hfills, hv⟩
    rcases (run_cons_eq_some _ _ _ _).mp hrun with ⟨u, hread, hrun⟩
    rcases (run_cons_eq_some _ _ _ _).mp hrun with ⟨v', hwrite, hv'⟩
    simp only [lettersRun, run_nil, Option.some.injEq] at hv'
    subst hv'
    rcases ih hv (by omega) with ⟨t, hrest, hmeets, ht⟩
    refine ⟨t, ?_, ?_, ?_⟩
    . simp only [lettersRun, run_cons_eq_some]
      exact ⟨u, hread, v', hwrite, hrest⟩
    . simp only [lettersRun] at hfills ⊢
      rw [meets_cons hread, meets_cons hwrite] at hfills ⊢
      exact ⟨hfills.left, hfills.right.left, hmeets⟩
    . rw [Nat.add_comm n 1, ← Nat.add_assoc]
      exact ht

theorem reads_lettersRun (n : Nat) : reads (lettersRun n) = n := by
  induction n with
  | zero => rfl
  | succ n ih =>
    unfold reads at ih ⊢
    rw [lettersRun, List.countP_cons, List.countP_cons, ih]
    rfl

/--
The message has become long enough to be handed over, but the peer has no address any more: the call
ends before the counter has changed, nothing is armed and `done_handler` has not run.
-/
theorem not_counter_exact_of_noEndpoint
    : ∃ s, run (loopStep .w32) (start 600000 1023 true 1) (lettersRun 512) = some s ∧
        Meets (loopStep .w32) Fills (start 600000 1023 true 1) (lettersRun 512) ∧
        reads (lettersRun 512) = 512 ∧
        s.armed = [.read 1023] ∧ Fills s (.readHandler .success letters ⟨[], none, none⟩) ∧
        ∃ t, exec (invoke .w32 (.readHandler .success letters ⟨[], none, none⟩)) s.idle =
            (.error .systemError, t) ∧
          t.sumSize.toInt = 600000 - 512 * 1023 ∧ t.sumSize.toInt ≠ 600000 - 513 * 1023 ∧
          t.doneAt = [] ∧ t.armed = [] := by
  have hstart : Filling 0 (start 600000 1023 true 1) := by
    constructor
    case sumSize => decide
    all_goals rfl
  rcases hstart.exists_run (n := 512) (by decide) with ⟨s, hrun, hfills, hs⟩
  rw [Nat.zero_add] at hs
  let t := (s.idle.written letters).appended []
  have hlong : t.currentMsg.length > flushSize ∧ t.callback := by
    refine ⟨?_, hs.callback⟩
    rw [hs.appended]
    decide
  have hthrows : exec (invoke .w32 (.readHandler .success letters ⟨[], none, none⟩)) s.idle =
      (.error .systemError, t) := by
    simp only [invoke, exec_bind, exec_deliver]
    exact exec_readHandler_throws _ .w32 letters.length rfl rfl hlong
  refine ⟨s, hrun, hfills, reads_lettersRun 512, hs.armed, ?_, t, hthrows, hs.sumSize, ?_,
    hs.doneAt, rfl⟩
  . exact ⟨rfl, length_letters.trans hs.readSize.symm⟩
  . have hsum : t.sumSize.toInt = 600000 - (512 : Nat) * 1023 := hs.sumSize
    rw [hsum]
    decide

end Run

end Receiver
