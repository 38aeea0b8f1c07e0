import NetDemo.Libhv.TcpClient.Lemmas

/-!
This module contains the delays after which the client tries to connect again.
-/

namespace Libhv

-- How many of the losses of a connection in a row are followed by another attempt.
def ReconnSetting.retries (reconn : ReconnSetting) (losses : Nat) : Nat :=
  if reconn.maxRetryCnt = infinite then losses else min losses (reconn.maxRetryCnt.toNat - 1)

-- The delay after `n` retries, 0 before the first one.
def ReconnSetting.delayAfter (reconn : ReconnSetting) (n : Nat) : Nat :=
  (Backoff.next reconn.grow reconn.minDelay.toNat reconn.maxDelay.toNat)^[n] 0

theorem ReconnSetting.delayAfter_succ (reconn : ReconnSetting) (n : Nat)
    : reconn.delayAfter (n + 1) = reconn.documentedDelay n := by
  apply iterate_next_grow

theorem ReconnSetting.delayAfter_le (reconn : ReconnSetting) (n : Nat)
    : reconn.delayAfter n ≤ reconn.maxDelay.toNat := by
  cases n with
  | zero => exact Nat.zero_le _
  | succ n =>
    unfold delayAfter
    rw [Function.iterate_succ_apply']
    apply Backoff.next_le

-- What is left of the setting after some losses.
structure ReconnSetting.After (reconn : ReconnSetting) (losses retries : Nat)
    (current : ReconnSetting)
    : Prop where
  eq : current =
    { reconn with curDelay := current.curDelay, curRetryCnt := UInt32.ofNat losses }
  curDelay : current.curDelay.toNat = reconn.delayAfter retries

theorem ReconnSetting.After.canRetry {reconn current : ReconnSetting} {losses retries : Nat}
    (h : reconn.After losses retries current)
    : reconn.After (losses + 1) retries current.canRetry.1 := by
  have ⟨heq, hdelay⟩ := h
  refine ⟨?_, hdelay⟩
  rw [heq]
  simp [ReconnSetting.canRetry]

theorem ReconnSetting.After.calcDelay {reconn current : ReconnSetting} {losses retries : Nat}
    (h : reconn.After losses retries current) (hfits : reconn.Fits)
    : reconn.After losses (retries + 1) current.calcDelay := by
  have ⟨heq, hdelay⟩ := h
  have hle := reconn.delayAfter_le retries
  rw [← hdelay] at hle
  constructor
  . rw [heq]
    rfl
  . have hnext : reconn.delayAfter (retries + 1) =
        Backoff.next reconn.grow reconn.minDelay.toNat reconn.maxDelay.toNat
          current.curDelay.toNat := by
      rw [hdelay]
      unfold delayAfter
      rw [Function.iterate_succ_apply']
    rw [hnext, heq]
    exact toNat_calcDelay hfits hle

theorem ReconnSetting.After.retries_succ {reconn current : ReconnSetting} {losses retries : Nat}
    (h : reconn.After losses retries current) (hlosses : losses + 1 < 4294967296)
    : reconn.retries (losses + 1) =
        reconn.retries losses + if current.canRetry.2 then 1 else 0 := by
  have hcount : (UInt32.ofNat losses + 1).toNat = losses + 1 := by
    rw [show UInt32.ofNat losses + 1 = UInt32.ofNat (losses + 1) by simp,
      UInt32.toNat_ofNat_of_lt' hlosses]
  have hretry : current.canRetry.2 = true ↔
      reconn.maxRetryCnt = infinite ∨ losses + 1 < reconn.maxRetryCnt.toNat := by
    rw [h.eq]
    simp [ReconnSetting.canRetry, UInt32.lt_iff_toNat_lt, hcount]
  simp only [hretry]
  unfold ReconnSetting.retries
  by_cases hinf : reconn.maxRetryCnt = infinite
  . simp [hinf]
  . simp only [hinf, if_false, false_or]
    split
    . omega
    . omega

namespace TcpClient

open Transition ReconnSetting

structure Scheduled (reconn : ReconnSetting) (c : TcpClient) : Prop where
  delays : c.delays.map UInt32.toNat = (List.range c.delays.length).map reconn.documentedDelay
  length : c.losses < 4294967296 → c.delays.length = reconn.retries c.losses
  setting : ∀ current, c.reconnSetting = some current →
    reconn.After c.losses c.delays.length current

theorem Scheduled.reconnects {reconn : ReconnSetting} {c t : TcpClient}
    (hc : Scheduled reconn c) (hfits : reconn.Fits) (h : Reconnects c t)
    : Scheduled reconn t := by
  have ⟨hdelays, hlength, hsetting⟩ := hc
  cases h with
  | off hreconn => exact hc
  | retrying current hreconn hretry =>
    have hafter := (hsetting current hreconn).canRetry.calcDelay hfits
    constructor
    . simp only [retrying, List.map_append, List.map_cons, List.map_nil, List.length_append,
        List.length_singleton, List.range_succ, hdelays, hafter.curDelay, delayAfter_succ]
    . intro hlosses
      have hsucc := (hsetting current hreconn).retries_succ hlosses
      rw [if_pos hretry] at hsucc
      simp only [retrying, List.length_append, List.length_singleton] at hlosses ⊢
      rw [hsucc, hlength (by omega)]
    . intro current' hcurrent'
      simp only [retrying, Option.some.injEq] at hcurrent'
      rw [← hcurrent']
      simpa [retrying] using hafter
  | gaveUp current hreconn hretry =>
    constructor
    . exact hdelays
    . intro hlosses
      have hsucc := (hsetting current hreconn).retries_succ hlosses
      simp only [hretry, Bool.false_eq_true, if_false, Nat.add_zero] at hsucc
      simp only [gaveUp] at hlosses ⊢
      rw [hsucc, hlength (by omega)]
    . intro current' hcurrent'
      simp only [gaveUp, Option.some.injEq] at hcurrent'
      rw [← hcurrent']
      exact (hsetting current hreconn).canRetry

theorem Scheduled.of_steps {reconn : ReconnSetting} (hfits : reconn.Fits) {c t : TcpClient}
    {e : TcpClientEvent} (hc : Scheduled reconn c) (he : ∀ setting, e ≠ .setReconnect setting)
    (h : Steps c e t)
    : Scheduled reconn t := by
  have ⟨hdelays, hlength, hsetting⟩ := hc
  cases h with
  | notCreated connfd hclosed hfd => exact hc
  | created connfd hclosed hfd => exact ⟨hdelays, hlength, hsetting⟩
  | notStarted connfd hidle => exact hc
  | started connfd io channel hready => exact ⟨hdelays, hlength, hsetting⟩
  | notRestarted i connfd hi hidle => exact ⟨hdelays, hlength, hsetting⟩
  | restarted i connfd io channel hi hready => exact ⟨hdelays, hlength, hsetting⟩
  | connected channel hchannel hstatus hopened =>
    constructor
    . rfl
    . simp [connected, retries]
    . intro current hcurrent
      simp only [connected, Option.map_eq_some_iff] at hcurrent
      rcases hcurrent with ⟨before, hbefore, hreset⟩
      have heq := (hsetting before hbefore).eq
      rw [← hreset, heq]
      exact ⟨rfl, rfl⟩
  | lost channel c' hchannel hstatus hreconnects =>
    have hlost : Scheduled reconn (c.closed channel).notifiedClosed :=
      ⟨hdelays, hlength, hsetting⟩
    exact hlost.reconnects hfits hreconnects
  | notClosed hnone => exact hc
  | closedBefore channel hchannel hstatus => exact ⟨hdelays, hlength, by simp [withoutReconnect]⟩
  | closedUnused channel hchannel hstatus hcallbacks =>
    exact ⟨hdelays, hlength, by simp [withoutReconnect]⟩
  | closedInUse channel hchannel hstatus => exact ⟨hdelays, hlength, by simp [withoutReconnect]⟩
  | setReconnect setting => exact absurd rfl (he setting)

/--
In every run the delays since the last connection are those that hloop.h documents, as many as there
were losses, up to `max_retry_cnt - 1` if that is not infinite.
-/
theorem delays_of_run (reconn : ReconnSetting) (hfits : reconn.Fits) (hdelay : reconn.curDelay = 0)
    (hcnt : reconn.curRetryCnt = 0) (es : List TcpClientEvent)
    (hset : ∀ setting, .setReconnect setting ∉ es) (c : TcpClient)
    (hrun : run step (new (some reconn)) es = some c) (hlosses : c.losses < 4294967296)
    : c.delays.map UInt32.toNat =
        (List.range (reconn.retries c.losses)).map reconn.documentedDelay := by
  have hscheduled : Scheduled reconn c := by
    apply And.right
    apply (wf_new (some reconn)).inv_of_run (d := fun e => ∀ setting, e ≠ .setReconnect setting)
      _ _ _ hrun
    . intro c e t _ hc he h
      exact hc.of_steps hfits he h
    . constructor
      . rfl
      . simp [new, retries]
      . intro current hcurrent
        simp only [new, Option.some.injEq] at hcurrent
        rw [← hcurrent]
        refine ⟨?_, ?_⟩
        . rw [show UInt32.ofNat (new (some reconn)).losses = reconn.curRetryCnt by rw [hcnt]; rfl]
        . rw [hdelay]
          rfl
    . intro e he setting heq
      exact hset setting (heq ▸ he)
  rw [hscheduled.delays, hscheduled.length hlosses]

-- The setting of the demo, and a client that never gets a connection.
def demoReconn : ReconnSetting :=
  { ReconnSetting.init with minDelay := 1000, maxDelay := 10000, delayPolicy := 2 }

def refusedRun : List TcpClientEvent :=
  [.createsocket 3, .start 3, .onClose, .timeout 0 4, .onClose, .timeout 0 3, .onClose, .timeout 0 4,
    .onClose, .timeout 0 3, .onClose, .timeout 0 4, .onClose]

theorem delays_of_run_refusedRun
    : ∃ c, run step (new (some demoReconn)) refusedRun = some c ∧
        c.delays.map UInt32.toNat = [1000, 2000, 4000, 8000, 10000, 10000] := by
  have hfits : demoReconn.Fits := by
    unfold Fits
    decide
  refine ⟨_, rfl, ?_⟩
  rw [delays_of_run demoReconn hfits rfl rfl refusedRun (by simp [refusedRun]) _ rfl
    (by decide)]
  rfl

end TcpClient

end Libhv
