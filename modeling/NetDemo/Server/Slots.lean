import NetDemo.Server.Invariant

/-!
This module contains who holds which slot of the pool over whole runs of the server, and which
write completions give a slot back that is not theirs any more.
-/

-- A write of the session completed with the one error that makes it give its slot back.
def Session.released (s : Session) : Bool :=
  s.completed.any fun error => error.value == 2

def Session.title (s : Session) : Nat × Bool :=
  (s.serialNum, s.released)

theorem Session.not_released_of_not_hasFailed {s : Session} (h : s.hasFailed = false)
    : s.released = false := by
  simp only [hasFailed, released, List.any_eq_false] at h ⊢
  intro error herror htwo
  apply h error herror
  simp only [beq_iff_eq] at htwo
  simp [ErrorCode.failed, htwo]

namespace IoServicePool

instance (pool : IoServicePool) (i : Nat) : Decidable (pool.InUse i) :=
  match h : pool.arrThreadStatus[i]? with
  | some status => decidable_of_iff (status ≠ 0) (by simp [InUse, h])
  | none => isFalse (by simp [InUse, h])

end IoServicePool

namespace Server

open IoServicePool Transition

-- The session of the pending accept, or an accepted one none of whose writes has failed.
def Holds (s : Server) (k : SessionRef) (session : Session) : Prop :=
  s.sessions[k]? = some session ∧
    (k ∈ s.accepting ∨ session.accepted = true ∧ session.hasFailed = false)

structure Exclusive (s : Server) : Prop where
  acceptor : ∀ (k : SessionRef) (session : Session), s.Holds k session →
    session.serialNum ≠ s.serialNum
  sessions : ∀ (j k : SessionRef) (session session' : Session), s.Holds j session →
    s.Holds k session' → j ≠ k → session.serialNum ≠ session'.serialNum

def Reissued (s : Server) (k : SessionRef) (session : Session) : Prop :=
  ∃ (j : SessionRef) (later : Session), k < j ∧ s.sessions[j]? = some later ∧
    later.serialNum = session.serialNum

-- The event does not free a slot that has meanwhile been given to another session.
def FreesOwn (s : Server) (event : ServerEvent) : Prop :=
  match event with
  | .written k _ error => ∀ session ∈ s.sessions[k]?, error.value = 2 →
    s.pool.InUse session.serialNum → ¬ s.Reissued k session
  | .accept _ _ _ => True
  | .sendData _ _ => True
  | .transfer _ _ _ _ => True

-- A completion with value 2 is the first one of its session, or the slot is free anyway.
def ReleasesOnce (s : Server) (event : ServerEvent) : Prop :=
  match event with
  | .written k _ error => ∀ session ∈ s.sessions[k]?, error.value = 2 →
    session.released = false ∨ ¬ s.pool.InUse session.serialNum
  | .accept _ _ _ => True
  | .sendData _ _ => True
  | .transfer _ _ _ _ => True

instance (s : Server) (k : SessionRef) (session : Session) : Decidable (s.Holds k session) :=
  inferInstanceAs (Decidable (_ ∧ _))

instance (s : Server) (event : ServerEvent) : Decidable (s.ReleasesOnce event) :=
  match event with
  | .written k _ error =>
    inferInstanceAs (Decidable (∀ session ∈ s.sessions[k]?, error.value = 2 →
      session.released = false ∨ ¬ s.pool.InUse session.serialNum))
  | .accept _ _ _ => isTrue trivial
  | .sendData _ _ => isTrue trivial
  | .transfer _ _ _ _ => isTrue trivial

-- Like `Holds`, but a session keeps its slot until it has given it back.
def Occupies (s : Server) (k : SessionRef) (session : Session) : Prop :=
  s.sessions[k]? = some session ∧
    (k ∈ s.accepting ∨ session.accepted = true ∧ session.released = false)

structure Owned (s : Server) : Prop where
  wf : s.Wf
  acceptor : s.pool.InUse s.serialNum
  inUse : ∀ (k : SessionRef) (session : Session), s.Occupies k session →
    s.pool.InUse session.serialNum
  other : ∀ (k : SessionRef) (session : Session), s.sessions[k]? = some session →
    session.serialNum ≠ s.serialNum
  latest : ∀ (k : SessionRef) (session : Session), s.Occupies k session → ¬ s.Reissued k session
  reissued : ∀ (k : SessionRef) (session : Session), s.sessions[k]? = some session →
    session.released = true → s.pool.InUse session.serialNum → s.Reissued k session

variable {s t : Server} {k : SessionRef} {session session' : Session}

theorem Holds.occupies (h : s.Holds k session) : s.Occupies k session := by
  refine ⟨h.left, ?_⟩
  cases h.right with
  | inl hpending => exact .inl hpending
  | inr hlive => exact .inr ⟨hlive.left, Session.not_released_of_not_hasFailed hlive.right⟩

theorem Owned.ne_of_occupies (hs : s.Owned) {j : SessionRef} (hj : s.Occupies j session)
    (hk : s.Occupies k session') (hne : j ≠ k)
    : session.serialNum ≠ session'.serialNum := by
  intro heq
  rcases Nat.lt_or_gt_of_ne hne with hlt | hgt
  . exact hs.latest j session hj ⟨k, session', hlt, hk.left, heq.symm⟩
  . exact hs.latest k session' hk ⟨j, session, hgt, hj.left, heq⟩

theorem Owned.exclusive (hs : s.Owned) : s.Exclusive where
  acceptor := by
    intro k session hk
    exact hs.other k session hk.left
  sessions := by
    intro j k session session' hj hk hne
    exact hs.ne_of_occupies hj.occupies hk.occupies hne

-- For the events that grant and release nothing: each session is as before up to what `Owned` does
-- not look at, and none occupies its slot that did not.
theorem Owned.of_sessions (hs : s.Owned) (ht : t.Wf) (hpool : t.pool = s.pool)
    (hserial : t.serialNum = s.serialNum)
    (hsame : ∀ j : SessionRef, (t.sessions[j]?).map Session.title =
      (s.sessions[j]?).map Session.title)
    (hoccupies : ∀ (j : SessionRef) (x : Session), t.Occupies j x → ∃ y, s.Occupies j y ∧
      y.serialNum = x.serialNum)
    : t.Owned := by
  have hback : ∀ (j : SessionRef) (x : Session), t.sessions[j]? = some x →
      ∃ y, s.sessions[j]? = some y ∧ y.serialNum = x.serialNum ∧ y.released = x.released := by
    intro j x hx
    have h := hsame j
    rw [hx, Option.map_some, eq_comm, Option.map_eq_some_iff] at h
    rcases h with ⟨y, hy, heq⟩
    simp only [Session.title, Prod.mk.injEq] at heq
    exact ⟨y, hy, heq⟩
  have hforth : ∀ (j : SessionRef) (y : Session), s.sessions[j]? = some y →
      ∃ x, t.sessions[j]? = some x ∧ x.serialNum = y.serialNum := by
    intro j y hy
    have h := hsame j
    rw [hy, Option.map_some, Option.map_eq_some_iff] at h
    rcases h with ⟨x, hx, heq⟩
    simp only [Session.title, Prod.mk.injEq] at heq
    exact ⟨x, hx, heq.left⟩
  constructor
  case wf => exact ht
  case acceptor => rw [hpool, hserial]; exact hs.acceptor
  case inUse =>
    intro j x hx
    rcases hoccupies j x hx with ⟨y, hy, heq⟩
    rw [hpool, ← heq]
    exact hs.inUse j y hy
  case other =>
    intro j x hx
    rcases hback j x hx with ⟨y, hy, heq, _⟩
    rw [hserial, ← heq]
    exact hs.other j y hy
  case latest =>
    intro j x hx hreissued
    rcases hoccupies j x hx with ⟨y, hy, heq⟩
    rcases hreissued with ⟨i, later, hlt, hlater, hsn⟩
    rcases hback i later hlater with ⟨later', hlater', heq', _⟩
    exact hs.latest j y hy ⟨i, later', hlt, hlater', by omega⟩
  case reissued =>
    intro j x hx hreleased hinUse
    rcases hback j x hx with ⟨y, hy, heq, hrel⟩
    rw [hpool, ← heq] at hinUse
    rcases hs.reissued j y hy (by rw [hrel, hreleased]) hinUse with ⟨i, later, hlt, hlater, hsn⟩
    rcases hforth i later hlater with ⟨later', hlater', heq'⟩
    exact ⟨i, later', hlt, hlater', by omega⟩

theorem map_lookup_set {f : Session → α} (hk : s.sessions[k]? = some session)
    (hf : f session' = f session) (j : SessionRef)
    : ((s.sessions.set k session')[j]?).map f = (s.sessions[j]?).map f := by
  rw [lookup_set hk]
  split
  . next heq => simp [heq, hk, hf]
  . rfl

theorem Owned.refused (hs : s.Owned) (i : Nat)
    : Owned { s with accepting := s.accepting.eraseIdx i } := by
  refine hs.of_sessions (hs.wf.refused i) rfl rfl (fun _ => rfl) ?_
  intro j x hx
  refine ⟨x, ⟨hx.left, ?_⟩, rfl⟩
  cases hx.right with
  | inl hpending => exact .inl (List.mem_of_mem_eraseIdx hpending)
  | inr hlive => exact .inr hlive

theorem Owned.admitted (hs : s.Owned) {i : Nat} (hi : s.accepting[i]? = some k)
    (hk : s.sessions[k]? = some session) (haccepted : session'.accepted = true)
    (htitle : session'.title = session.title)
    : (s.admitted i k session').Owned := by
  refine hs.of_sessions (hs.wf.admitted hi hk haccepted) rfl rfl (map_lookup_set hk htitle) ?_
  intro j x hx
  rcases hx with ⟨hget, hx⟩
  simp only [Server.admitted, lookup_set hk] at hget
  split at hget
  . next heq =>
    simp only [Option.some.injEq] at hget
    subst heq hget
    simp only [Session.title, Prod.mk.injEq] at htitle
    exact ⟨session, ⟨hk, .inl (List.mem_of_getElem? hi)⟩, htitle.left.symm⟩
  . simp only [Server.admitted, (hs.wf.accepting_eq hi).right, List.not_mem_nil, false_or] at hx
    exact ⟨x, ⟨hget, .inr hx⟩, rfl⟩

theorem Owned.replaced (hs : s.Owned) (ht : (s.replaced k session' s.pool).Wf)
    (hk : s.sessions[k]? = some session) (haccepted : session'.accepted = session.accepted)
    (htitle : session'.title = session.title)
    : (s.replaced k session' s.pool).Owned := by
  refine hs.of_sessions ht rfl rfl (map_lookup_set hk htitle) ?_
  intro j x hx
  rcases hx with ⟨hget, hx⟩
  simp only [Server.replaced, lookup_set hk] at hget
  split at hget
  . next heq =>
    simp only [Option.some.injEq] at hget
    subst heq hget
    simp only [Session.title, Prod.mk.injEq] at htitle
    rw [haccepted, htitle.right] at hx
    exact ⟨session, ⟨hk, hx⟩, htitle.left.symm⟩
  . exact ⟨x, ⟨hget, hx⟩, rfl⟩

theorem Owned.sendData (hs : s.Owned) (msg : Bytes) (slack : List Nat)
    : (s.sendData msg slack).Owned := by
  refine hs.of_sessions (hs.wf.sendData msg slack) rfl rfl ?_ ?_
  . intro j
    rw [lookup_sendData hs.wf.nodup, Option.map_map]
    congr 1
    funext x
    simp only [Function.comp_apply]
    split
    . rfl
    . rfl
  . intro j x hx
    rcases hx with ⟨hget, hx⟩
    rw [lookup_sendData hs.wf.nodup, Option.map_eq_some_iff] at hget
    rcases hget with ⟨y, hy, heq⟩
    split at heq
    . subst heq
      exact ⟨y, ⟨hy, hx⟩, rfl⟩
    . subst heq
      exact ⟨y, ⟨hy, hx⟩, rfl⟩

-- A slot that is granted was not in use, so nobody occupies it.
theorem Owned.armed (hs : s.Owned) (hempty : s.accepting = []) {sn : Nat} {ref : ServiceRef}
    {pool : IoServicePool} (hgrants : s.pool.Grants sn ref pool)
    : (s.armed sn ref pool).Owned := by
  have hfree := hgrants.not_inUse_of_regular hs.wf.pool
  have hinUse := hgrants.inUse_iff hs.wf.pool.lockstep
  have hold : ∀ (j : SessionRef) (x : Session), (s.armed sn ref pool).Occupies j x →
      j = s.sessions.length ∧ x.serialNum = sn ∨ s.Occupies j x := by
    intro j x hx
    rcases hx with ⟨hget, hx⟩
    rw [lookup_armed] at hget
    split at hget
    . next heq =>
      simp only [Option.some.injEq] at hget
      subst hget
      exact .inl ⟨heq, rfl⟩
    . next hne =>
      simp only [Server.armed, hempty, List.nil_append, List.mem_singleton, hne, false_or] at hx
      exact .inr ⟨hget, .inr hx⟩
  constructor
  case wf => exact hs.wf.armed hempty hgrants
  case acceptor => exact (hinUse s.serialNum).mpr (.inr hs.acceptor)
  case inUse =>
    intro j x hx
    apply (hinUse x.serialNum).mpr
    cases hold j x hx with
    | inl hnew => exact .inl hnew.right
    | inr hx => exact .inr (hs.inUse j x hx)
  case other =>
    intro j x hx heq
    rw [lookup_armed] at hx
    split at hx
    . simp only [Option.some.injEq] at hx
      subst hx
      have hsn : sn = s.serialNum := heq
      exact hfree (hsn ▸ hs.acceptor)
    . exact hs.other j x hx heq
  case latest =>
    intro j x hx hreissued
    rcases hreissued with ⟨i, later, hlt, hlater, heq⟩
    have hbound := (List.getElem?_eq_some_iff.mp hlater).1
    simp only [Server.armed, List.length_append, List.length_singleton] at hbound
    cases hold j x hx with
    | inl hnew =>
      rw [hnew.left] at hlt
      exact absurd hbound (Nat.not_lt.mpr hlt)
    | inr hx =>
      rw [lookup_armed] at hlater
      split at hlater
      . simp only [Option.some.injEq] at hlater
        subst hlater
        have := hs.inUse j x hx
        rw [← heq] at this
        exact hfree this
      . exact hs.latest j x hx ⟨i, later, hlt, hlater, heq⟩
  case reissued =>
    intro j x hx hreleased hused
    rw [lookup_armed] at hx
    split at hx
    . simp only [Option.some.injEq] at hx
      subst hx
      simp [Session.released, Session.new] at hreleased
    . next hne =>
      have hlt : j < s.sessions.length := (List.getElem?_eq_some_iff.mp hx).1
      cases (hinUse x.serialNum).mp hused with
      | inl hsn =>
        refine ⟨s.sessions.length, .new ref sn, hlt, ?_, hsn.symm⟩
        rw [lookup_armed, if_pos rfl]
      | inr hused =>
        rcases hs.reissued j x hx hreleased hused with ⟨i, later, hlt', hlater, heq⟩
        refine ⟨i, later, hlt', ?_, heq⟩
        rw [lookup_armed, if_neg]
        . exact hlater
        . exact Nat.ne_of_lt (List.getElem?_eq_some_iff.mp hlater).1

section Released

variable {pool : IoServicePool}

theorem lookup_replaced (hk : s.sessions[k]? = some session)
    (hserial : session'.serialNum = session.serialNum) {j : SessionRef} {x : Session}
    (hx : (s.replaced k session' pool).sessions[j]? = some x)
    : ∃ y, s.sessions[j]? = some y ∧ y.serialNum = x.serialNum ∧ (j ≠ k → y = x) := by
  simp only [Server.replaced, lookup_set hk] at hx
  split at hx
  . next heq =>
    simp only [Option.some.injEq] at hx
    subst heq hx
    refine ⟨session, hk, hserial.symm, ?_⟩
    intro hne
    exact absurd rfl hne
  . exact ⟨x, hx, rfl, fun _ => rfl⟩

theorem Occupies.of_replaced (hwf : (s.replaced k session' pool).Wf)
    (hk : s.sessions[k]? = some session) (haccepted : session'.accepted = true)
    (hreleased : session'.released = true) {j : SessionRef} {x : Session}
    (hx : (s.replaced k session' pool).Occupies j x)
    : j ≠ k ∧ s.Occupies j x := by
  rcases hx with ⟨hget, hx⟩
  have hget' := hget
  simp only [Server.replaced, lookup_set hk] at hget'
  split at hget'
  . next heq =>
    simp only [Option.some.injEq] at hget'
    subst heq hget'
    cases hx with
    | inl hpending => exact absurd hpending (hwf.not_mem_accepting hget haccepted)
    | inr hlive => simp [hreleased] at hlive
  . next hne => exact ⟨hne, hget', hx⟩

-- Nobody else has the slot: either it is still the session's own or it is free.
theorem Owned.ne_of_own (hs : s.Owned) (hk : s.sessions[k]? = some session)
    (haccepted : session.accepted = true)
    (hown : session.released = false ∨ ¬ s.pool.InUse session.serialNum)
    {j : SessionRef} {x : Session} (hne : j ≠ k) (hx : s.Occupies j x)
    : x.serialNum ≠ session.serialNum := by
  cases hown with
  | inl hown => exact hs.ne_of_occupies hx ⟨hk, .inr ⟨haccepted, hown⟩⟩ hne
  | inr hfree =>
    intro heq
    exact hfree (heq ▸ hs.inUse j x hx)

theorem Owned.released (hs : s.Owned) (hk : s.sessions[k]? = some session)
    (haccepted : session.accepted = true) (haccepted' : session'.accepted = true)
    (hserial : session'.serialNum = session.serialNum) (hreleased : session'.released = true)
    (hslot : session.serialNum < s.pool.arrThreadStatus.length)
    (hown : session.released = false ∨ ¬ s.pool.InUse session.serialNum)
    : (s.replaced k session' (s.pool.withStatus session.serialNum 0)).Owned := by
  have hwf := hs.wf.replaced hk haccepted haccepted' (hs.wf.pool.withStatus_zero hslot)
  have hinUse := inUse_release hslot
  constructor
  case wf => exact hwf
  case acceptor => exact (hinUse _).mpr ⟨(hs.other k session hk).symm, hs.acceptor⟩
  case inUse =>
    intro j x hx
    rcases hx.of_replaced hwf hk haccepted' hreleased with ⟨hne, hx⟩
    exact (hinUse _).mpr ⟨hs.ne_of_own hk haccepted hown hne hx, hs.inUse j x hx⟩
  case other =>
    intro j x hx
    rcases lookup_replaced hk hserial hx with ⟨y, hy, heq, _⟩
    rw [← heq]
    exact hs.other j y hy
  case latest =>
    intro j x hx hreissued
    have hold := hx.of_replaced hwf hk haccepted' hreleased
    rcases hreissued with ⟨i, later, hlt, hlater, heq⟩
    rcases lookup_replaced hk hserial hlater with ⟨later', hlater', heq', _⟩
    exact hs.latest j x hold.right ⟨i, later', hlt, hlater', by omega⟩
  case reissued =>
    intro j x hx hrel hused
    rcases (hinUse _).mp hused with ⟨hne, hused⟩
    rcases lookup_replaced hk hserial hx with ⟨y, hy, heq, hsame⟩
    have hjk : j ≠ k := by
      intro hjk
      rw [hjk, hk] at hy
      simp only [Option.some.injEq] at hy
      rw [← hy] at heq
      exact hne heq.symm
    rw [hsame hjk] at hy
    rcases hs.reissued j x hy hrel hused with ⟨i, later, hlt, hlater, hsn⟩
    by_cases hik : i = k
    . subst hik
      rw [hk] at hlater
      simp only [Option.some.injEq] at hlater
      subst hlater
      exact absurd hsn.symm hne
    . refine ⟨i, later, hlt, ?_, hsn⟩
      simp only [Server.replaced, lookup_set hk, if_neg hik]
      exact hlater

end Released

theorem Session.title_complete {w : Nat} {error : ErrorCode}
    (h : session.complete w error = some session')
    : session'.serialNum = session.serialNum ∧ session'.accepted = session.accepted ∧
        session'.released = (session.released || error.value == 2) := by
  rcases Session.complete_eq_some h with ⟨_, _, _, heq⟩
  subst heq
  simp [Session.released]

theorem Owned.steps {event : ServerEvent} (hs : s.Owned) (hevent : s.ReleasesOnce event)
    (h : Steps s event t)
    : t.Owned := by
  have ht := hs.wf.steps h
  cases h with
  | refused i error localEndpoint hi herror => exact hs.refused i
  | thrown i k error localEndpoint session hi hk herror hstart => exact hs.admitted hi hk rfl rfl
  | armed i k error session sn ref pool hi hk herror hgrants =>
    have hadmitted : (s.admitted i k (started session)).Owned := hs.admitted hi hk rfl rfl
    exact hadmitted.armed (hs.wf.accepting_eq hi).right hgrants
  | sendData msg slack => exact hs.sendData msg slack
  | transfer k w n stale session session' hk h =>
    rcases Session.transfer_eq_some h with ⟨_, _, _, _, heq⟩
    apply hs.replaced ht hk
    . rw [heq]
    . rw [heq]
      rfl
  | kept k w error session session' hk h herror =>
    rcases Session.title_complete h with ⟨hserial, haccepted, hreleased⟩
    apply hs.replaced ht hk haccepted
    simp [Session.title, hserial, hreleased, herror]
  | released k w error session session' hk h herror hslot =>
    rcases Session.complete_eq_some h with ⟨write, hwrite, _, _⟩
    rcases Session.title_complete h with ⟨hserial, haccepted', hreleased⟩
    have haccepted := hs.wf.accepted_of_write hk hwrite
    rw [haccepted] at haccepted'
    have hreleased' : session'.released = true := by simp [hreleased, herror]
    exact hs.released hk haccepted haccepted' hserial hreleased' hslot (hevent session hk herror)

theorem owned_new {threadCnt : Nat} (hnew : new threadCnt = some s) : s.Owned := by
  have hwf := wf_of_run hnew (run_nil s)
  rcases new_eq threadCnt with ⟨ref, pool, sn, ref', pool', hgrants, hgrants', heq⟩
  rw [hnew] at heq
  simp only [Option.some.injEq] at heq
  subst heq
  have hpool := hgrants.regular (regular_new threadCnt)
  have hacceptor : pool.InUse 0 := by
    rw [hgrants.inUse_iff (lockstep_new threadCnt)]
    exact .inl rfl
  apply Owned.armed _ rfl hgrants'
  constructor
  case wf => exact wf_bare ref hpool
  case acceptor => exact hacceptor
  all_goals simp [bare, Occupies]

theorem releasesOnce_iff {event : ServerEvent} (hs : s.Owned) (h : Steps s event t)
    : s.ReleasesOnce event ↔ s.FreesOwn event := by
  cases h with
  | refused i error localEndpoint hi herror => rfl
  | thrown i k error localEndpoint session hi hk herror hstart => rfl
  | armed i k error session sn ref pool hi hk herror hgrants => rfl
  | sendData msg slack => rfl
  | transfer k w n stale session session' hk h => rfl
  | kept k w error session session' hk h herror => simp [ReleasesOnce, FreesOwn, herror]
  | released k w error session session' hk h herror hslot =>
    rcases Session.complete_eq_some h with ⟨write, hwrite, _, _⟩
    have haccepted := hs.wf.accepted_of_write hk hwrite
    constructor
    . intro hevent x hx _ hused
      rw [Option.mem_def, hk] at hx
      simp only [Option.some.injEq] at hx
      subst hx
      cases hevent session hk herror with
      | inl hown => exact hs.latest k session ⟨hk, .inr ⟨haccepted, hown⟩⟩
      | inr hfree => exact absurd hused hfree
    . intro hevent x hx _
      rw [Option.mem_def, hk] at hx
      simp only [Option.some.injEq] at hx
      subst hx
      cases hreleased : session.released with
      | false => exact .inl rfl
      | true =>
        refine .inr ?_
        intro hused
        exact hevent session hk herror hused (hs.reissued k session hk hreleased hused)

/--
No slot has two holders at any time and no completion frees a slot that was granted again, if and
only if the value that releases a slot is not delivered to a session that has given its slot back
while that slot is in use.
-/
theorem exclusive_iff_releasesOnce (threadCnt : Nat) (events : List ServerEvent) (s t : Server)
    (hnew : new threadCnt = some s) (hrun : run step s events = some t)
    : Along step Exclusive s events ∧ Meets step FreesOwn s events ↔
        Meets step ReleasesOnce s events := by
  have hkeep : ∀ {s event t}, Owned s → ReleasesOnce s event → step s event = some t →
      Owned t := by
    intro s event t hs hevent hstep
    exact hs.steps hevent (hs.wf.step hstep).left
  have hcongr : Meets step ReleasesOnce s events ↔ Meets step FreesOwn s events := by
    refine meets_congr (I := Owned) hkeep ?_ (owned_new hnew) hrun
    intro s event t hs hstep
    exact releasesOnce_iff hs (hs.wf.step hstep).left
  constructor
  . intro h
    exact hcongr.mpr h.right
  . intro h
    refine ⟨?_, hcongr.mp h⟩
    exact along_of_meets Owned.exclusive hkeep (owned_new hnew) h

theorem exclusive_iff_releasesOnce_of_two
    : ∃ s, new 0 = some s ∧
        Along step Exclusive s
          [.accept 0 .success (some .v4), .sendData [1] [], .sendData [2] [], .written 0 0 ⟨2⟩,
            .written 0 0 ⟨2⟩, .accept 0 .success (some .v4)] := by
  have hnew : new 0 = some ((new 0).get (by decide)) := by simp
  have hrun : run step ((new 0).get (by decide))
      [.accept 0 .success (some .v4), .sendData [1] [], .sendData [2] [], .written 0 0 ⟨2⟩,
        .written 0 0 ⟨2⟩, .accept 0 .success (some .v4)] =
        some ((run step ((new 0).get (by decide))
          [.accept 0 .success (some .v4), .sendData [1] [], .sendData [2] [], .written 0 0 ⟨2⟩,
            .written 0 0 ⟨2⟩, .accept 0 .success (some .v4)]).get (by decide)) := by
    simp
  refine ⟨_, hnew, ?_⟩
  apply And.left
  apply (exclusive_iff_releasesOnce 0 _ _ _ hnew hrun).mpr
  decide

-- Both writes of session 0 fail, the second one after its slot went to session 2, whose slot then
-- goes to session 3 as well.
theorem not_exclusive_of_late_release
    : ∃ s, new 0 = some s ∧
        ∃ t, run step s
          [.accept 0 .success (some .v4), .sendData [1] [], .sendData [2] [], .written 0 0 ⟨2⟩,
            .accept 0 .success (some .v4), .written 0 0 ⟨2⟩, .accept 0 .success (some .v4)] =
              some t ∧
          ¬ t.Exclusive := by
  have hnew : new 0 = some ((new 0).get (by decide)) := by simp
  refine ⟨_, hnew, (run step ((new 0).get (by decide))
    [.accept 0 .success (some .v4), .sendData [1] [], .sendData [2] [], .written 0 0 ⟨2⟩,
      .accept 0 .success (some .v4), .written 0 0 ⟨2⟩, .accept 0 .success (some .v4)]).get
    (by decide), by simp, ?_⟩
  intro h
  apply h.sessions 2 3 (started (.new 1 1)) (.new 1 1)
  . decide
  . decide
  . decide
  . rfl

end Server
