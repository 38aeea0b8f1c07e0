import NetDemo.Lib.Backoff
import Mathlib.Algebra.Group.Nat.Defs
import Mathlib.Algebra.Group.Basic
import Mathlib.Algebra.Group.Action.Defs
import Mathlib.Algebra.Order.Ring.Nat

/-!
This module contains the `reconn_setting_t` of libhv: how often and after which delays a client
tries to connect again. The numbers have 32 bits.
-/

namespace Libhv

def infinite : UInt32 :=
  0xFFFFFFFF

structure ReconnSetting where
  minDelay : UInt32
  maxDelay : UInt32
  curDelay : UInt32
  delayPolicy : UInt32
  maxRetryCnt : UInt32
  curRetryCnt : UInt32
  deriving DecidableEq, Repr

namespace ReconnSetting

def init : ReconnSetting where
  minDelay := 1000
  maxDelay := 60000
  curDelay := 0
  delayPolicy := 2
  maxRetryCnt := infinite
  curRetryCnt := 0

def reset (reconn : ReconnSetting) : ReconnSetting :=
  { reconn with curDelay := 0, curRetryCnt := 0 }

def canRetry (reconn : ReconnSetting) : ReconnSetting × Bool :=
  let reconn := { reconn with curRetryCnt := reconn.curRetryCnt + 1 }
  (reconn, reconn.maxRetryCnt = infinite || reconn.curRetryCnt < reconn.maxRetryCnt)

-- The delay is the `curDelay` of the result.
def calcDelay (reconn : ReconnSetting) : ReconnSetting :=
  let curDelay :=
    if reconn.delayPolicy = 0 then
      reconn.minDelay
    else if reconn.delayPolicy = 1 then
      reconn.curDelay + reconn.minDelay
    else
      reconn.curDelay * reconn.delayPolicy
  { reconn with curDelay := min (max curDelay reconn.minDelay) reconn.maxDelay }

/--
The delay before the attempt `k + 1` after a connection was lost, as hloop.h documents it:
3,3,3... for a fixed one, 3,6,9,10,10... for linear and 3,6,12,24,48,60,60... for exponential growth.
-/
def documentedDelay (reconn : ReconnSetting) (k : Nat) : Nat :=
  let delay :=
    if reconn.delayPolicy = 0 then
      reconn.minDelay.toNat
    else if reconn.delayPolicy = 1 then
      (k + 1) * reconn.minDelay.toNat
    else
      reconn.minDelay.toNat * reconn.delayPolicy.toNat ^ k
  min delay reconn.maxDelay.toNat

-- The next delay after the longest one has 32 bits, too.
def Fits (reconn : ReconnSetting) : Prop :=
  if reconn.delayPolicy = 0 then
    True
  else if reconn.delayPolicy = 1 then
    reconn.maxDelay.toNat + reconn.minDelay.toNat < 4294967296
  else
    reconn.maxDelay.toNat * reconn.delayPolicy.toNat < 4294967296

theorem toNat_min (a b : UInt32) : (min a b).toNat = min a.toNat b.toNat := by
  rw [show min a b = if a ≤ b then a else b from rfl]
  split
  . next h =>
    rw [UInt32.le_iff_toNat_le] at h
    omega
  . next h =>
    rw [UInt32.le_iff_toNat_le] at h
    omega

theorem toNat_max (a b : UInt32) : (max a b).toNat = max a.toNat b.toNat := by
  rw [show max a b = if a ≤ b then b else a from rfl]
  split
  . next h =>
    rw [UInt32.le_iff_toNat_le] at h
    omega
  . next h =>
    rw [UInt32.le_iff_toNat_le] at h
    omega

-- How a delay grows from one attempt to the next, without wrapping around.
def grow (reconn : ReconnSetting) (delay : Nat) : Nat :=
  if reconn.delayPolicy = 0 then
    reconn.minDelay.toNat
  else if reconn.delayPolicy = 1 then
    delay + reconn.minDelay.toNat
  else
    delay * reconn.delayPolicy.toNat

theorem toNat_calcDelay {reconn : ReconnSetting} (hfits : reconn.Fits)
    (hle : reconn.curDelay.toNat ≤ reconn.maxDelay.toNat)
    : reconn.calcDelay.curDelay.toNat =
        Backoff.next reconn.grow reconn.minDelay.toNat reconn.maxDelay.toNat
          reconn.curDelay.toNat := by
  unfold calcDelay Backoff.next grow
  dsimp only
  rw [toNat_min, toNat_max]
  unfold Fits at hfits
  split
  . rfl
  . split
    . next hfixed hlinear =>
      rw [if_neg hfixed, if_pos hlinear] at hfits
      rw [UInt32.toNat_add, Nat.mod_eq_of_lt (by omega)]
    . next hfixed hlinear =>
      rw [if_neg hfixed, if_neg hlinear] at hfits
      have hmul := Nat.mul_le_mul_right reconn.delayPolicy.toNat hle
      rw [UInt32.toNat_mul, Nat.mod_eq_of_lt (by omega)]

theorem iterate_next_grow (reconn : ReconnSetting) (k : Nat)
    : (Backoff.next reconn.grow reconn.minDelay.toNat reconn.maxDelay.toNat)^[k + 1] 0 =
        reconn.documentedDelay k := by
  unfold documentedDelay
  dsimp only
  split
  . next hfixed =>
    rw [Function.iterate_succ_apply']
    simp [Backoff.next, grow, hfixed]
  . split
    . next hfixed hlinear =>
      have hgrow : reconn.grow = (· + reconn.minDelay.toNat) := by
        funext delay
        simp [grow, hlinear]
      rw [hgrow, Backoff.iterate_next, add_right_iterate_apply]
      . rw [smul_eq_mul, Nat.add_mul, Nat.one_mul, Nat.add_comm]
      . omega
      . omega
    . next hfixed hlinear =>
      have hgrow : reconn.grow = (· * reconn.delayPolicy.toNat) := by
        funext delay
        simp [grow, hfixed, hlinear]
      have hpos : 0 < reconn.delayPolicy.toNat := by
        rw [Nat.pos_iff_ne_zero]
        intro hzero
        apply hfixed
        rw [← UInt32.toNat_inj, hzero]
        rfl
      rw [hgrow, Backoff.iterate_next, mul_right_iterate_apply]
      . intro delay
        exact Nat.le_mul_of_pos_right delay hpos
      . simp

end ReconnSetting

end Libhv
