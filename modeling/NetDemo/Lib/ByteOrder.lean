import Mathlib.Algebra.Group.Nat.Defs

/-!
This module contains the representation of unsigned numbers in memory and the conversion between
the order of a host and that of the network.
-/

inductive ByteOrder where
  | little
  | big
  deriving DecidableEq, Repr

namespace ByteOrder

-- `n` bytes, the least significant one first.
def digits (n x : Nat) : List UInt8 :=
  match n with
  | 0 => []
  | n + 1 => UInt8.ofNat x :: digits n (x / 256)

def value (bytes : List UInt8) : Nat :=
  match bytes with
  | [] => 0
  | byte :: bytes => byte.toNat + 256 * value bytes

def store (order : ByteOrder) (n x : Nat) : List UInt8 :=
  match order with
  | .little => digits n x
  | .big => (digits n x).reverse

def load (order : ByteOrder) (bytes : List UInt8) : Nat :=
  match order with
  | .little => value bytes
  | .big => value bytes.reverse

-- The number whose representation on the host is that of `x` in the order of the network.
def htonl (host : ByteOrder) (x : Nat) : Nat :=
  host.load (big.store 4 x)

-- The number whose representation in the order of the network is that of `x` on the host.
def ntohl (host : ByteOrder) (x : Nat) : Nat :=
  big.load (host.store 4 x)

@[simp]
theorem length_digits (n x : Nat) : (digits n x).length = n := by
  induction n generalizing x with
  | zero => rfl
  | succ n ih => simp [digits, ih]

theorem value_digits (n x : Nat) : value (digits n x) = x % 256 ^ n := by
  induction n generalizing x with
  | zero => simp [digits, value, Nat.mod_one]
  | succ n ih =>
    have hmod : x % 256 ^ (n + 1) = x % 256 + 256 * (x / 256 % 256 ^ n) := by
      rw [Nat.pow_succ', Nat.mod_mul]
    simp only [digits, value]
    rw [ih, hmod, UInt8.toNat_ofNat']

theorem digits_value (bytes : List UInt8) : digits bytes.length (value bytes) = bytes := by
  induction bytes with
  | nil => rfl
  | cons byte bytes ih =>
    have hlt : byte.toNat < 256 := byte.toNat_lt
    have hhead : UInt8.ofNat (byte.toNat + 256 * value bytes) = byte := by
      apply UInt8.toNat_inj.mp
      rw [UInt8.toNat_ofNat']
      omega
    have htail : (byte.toNat + 256 * value bytes) / 256 = value bytes := by omega
    simp only [List.length_cons, digits, value, hhead, htail, ih]

@[simp]
theorem length_store (order : ByteOrder) (n x : Nat) : (order.store n x).length = n := by
  cases order with
  | little => simp [store]
  | big => simp [store]

theorem load_store (order : ByteOrder) (n x : Nat)
    : order.load (order.store n x) = x % 256 ^ n := by
  cases order with
  | little => simp [store, load, value_digits]
  | big => simp [store, load, value_digits]

theorem store_load (order : ByteOrder) (bytes : List UInt8)
    : order.store bytes.length (order.load bytes) = bytes := by
  cases order with
  | little =>
    simp only [store, load]
    apply digits_value
  | big =>
    simp only [store, load]
    rw [← List.length_reverse, digits_value, List.reverse_reverse]

theorem store_htonl (host : ByteOrder) (x : Nat) : host.store 4 (host.htonl x) = big.store 4 x := by
  have h := store_load host (big.store 4 x)
  rwa [length_store] at h

theorem ntohl_load (host : ByteOrder) (bytes : List UInt8) (h : bytes.length = 4)
    : host.ntohl (host.load bytes) = big.load bytes := by
  unfold ntohl
  rw [← h, store_load]

end ByteOrder
