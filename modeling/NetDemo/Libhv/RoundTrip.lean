import NetDemo.Libhv.Basic

/-!
This module contains the round trip of the messages from the server to the client, however the
stream between them is cut into chunks.
-/

namespace Libhv

open StreamSplit

theorem memcpy_append {xs ys zs src : Bytes} {n : Nat} (hn : xs.length = n)
    (hlen : src.length = ys.length)
    : memcpy (xs ++ (ys ++ zs)) n src = xs ++ (src ++ zs) := by
  subst hn
  simp [memcpy, hlen, ← List.drop_drop]

theorem bufNew_eq (host : ByteOrder) (msg : Bytes)
    : bufNew host msg = [120] ++ (ByteOrder.big.store 4 msg.length ++ msg) := by
  have hpre : memcpy ([] ++ ([0] ++ (List.replicate 4 0 ++ List.replicate msg.length 0))) 0 [120] =
      [120] ++ (List.replicate 4 0 ++ List.replicate msg.length 0) := by
    apply memcpy_append
    . rfl
    . rfl
  have hlen : memcpy ([120] ++ (List.replicate 4 0 ++ List.replicate msg.length 0)) 1
      (ByteOrder.big.store 4 msg.length) =
        [120] ++ (ByteOrder.big.store 4 msg.length ++ List.replicate msg.length 0) := by
    apply memcpy_append
    . rfl
    . simp
  have hmsg : memcpy (([120] ++ ByteOrder.big.store 4 msg.length) ++
      (List.replicate msg.length 0 ++ [])) 5 msg =
        ([120] ++ ByteOrder.big.store 4 msg.length) ++ (msg ++ []) := by
    apply memcpy_append
    . simp
    . simp
  simp only [List.append_nil, List.append_assoc] at hmsg
  have hzero : List.replicate (msg.length + 5) (0 : UInt8) =
      [] ++ ([0] ++ (List.replicate 4 0 ++ List.replicate msg.length 0)) := by
    rw [List.nil_append, List.replicate_append_replicate, Nat.add_comm 4]
    rfl
  unfold bufNew
  dsimp only
  rw [hzero, hpre, ByteOrder.store_htonl, hlen, hmsg]

theorem take_bufNew (host : ByteOrder) (msg stream : Bytes)
    : (bufNew host msg ++ stream).take 5 = [120] ++ ByteOrder.big.store 4 msg.length := by
  rw [bufNew_eq, ← List.append_assoc, List.append_assoc]
  apply List.take_left'
  simp

theorem drop_bufNew (host : ByteOrder) (msg : Bytes) : (bufNew host msg).drop 5 = msg := by
  rw [bufNew_eq, ← List.append_assoc]
  apply List.drop_left'
  simp

theorem bufNew_injective (host : ByteOrder) : Function.Injective (bufNew host) := by
  intro msg msg' h
  rw [← drop_bufNew host msg, h, drop_bufNew]

theorem lengthField_bufNew (msg : Bytes)
    : (([120] ++ ByteOrder.big.store 4 msg.length).drop 1).take 4 =
        ByteOrder.big.store 4 msg.length := by
  apply List.take_of_length_le
  simp

theorem load_lengthField {msg : Bytes} (hsize : msg.length + 5 ≤ defaultPackageMaxLength)
    : ByteOrder.big.load (ByteOrder.big.store 4 msg.length) = msg.length := by
  rw [ByteOrder.load_store]
  unfold defaultPackageMaxLength at hsize
  omega

theorem length_bufNew (host : ByteOrder) (msg : Bytes)
    : (bufNew host msg).length = msg.length + 5 := by
  simp [bufNew_eq]
  omega

theorem stable_packageLength (setting : UnpackSetting) : Stable setting.packageLength := by
  intro xs ys n h
  unfold UnpackSetting.packageLength at h ⊢
  dsimp only at h ⊢
  by_cases hle : setting.bodyOffset ≤ xs.length
  . have hle' : setting.bodyOffset ≤ (xs ++ ys).length := by
      rw [List.length_append]
      omega
    rw [List.take_append_of_le_length hle]
    simp only [hle, hle', if_true] at h ⊢
    exact h
  . simp only [hle, if_false] at h
    split at h
    . simp at h
    . simp at h
    . simp at h

theorem packageLength_bufNew (host : ByteOrder) (msg stream : Bytes)
    (hsize : msg.length + 5 ≤ defaultPackageMaxLength)
    : unpackSetting.packageLength (bufNew host msg ++ stream) =
        some (bufNew host msg).length := by
  have hle : 5 ≤ (bufNew host msg ++ stream).length := by
    rw [List.length_append, length_bufNew]
    omega
  simp only [UnpackSetting.packageLength, unpackSetting, hle, if_true, take_bufNew,
    lengthField_bufNew, load_lengthField hsize]
  rw [length_bufNew]
  simp
  omega

theorem framed_bufNew (host : ByteOrder) (msg : Bytes)
    (hsize : msg.length + 5 ≤ defaultPackageMaxLength)
    : Framed unpackSetting.packageLength unpackSetting.packageMaxLength (bufNew host msg) where
  ne_nil := by
    rw [bufNew_eq]
    simp
  le := by
    rw [length_bufNew]
    exact hsize
  next_append := by
    intro stream
    exact packageLength_bufNew host msg stream hsize

def received (msg : Bytes) : Message where
  size := msg.length + 5
  tLen := msg.length
  msg := msg

theorem onMessage_bufNew (server client : ByteOrder) (msg : Bytes)
    (hsize : msg.length + 5 ≤ defaultPackageMaxLength)
    : onMessage client (bufNew server msg) = received msg := by
  have hstrLen : ((bufNew server msg).drop 1).take 4 = ByteOrder.big.store 4 msg.length := by
    have htake := take_bufNew server msg []
    rw [List.append_nil] at htake
    rw [List.take_drop, htake]
    rfl
  have hmsg : msg.take (msg.length + 5 - 5) = msg := by
    apply List.take_of_length_le
    omega
  unfold onMessage received
  dsimp only
  rw [length_bufNew, hstrLen, drop_bufNew, hmsg, ByteOrder.ntohl_load _ _ (by simp),
    load_lengthField hsize]

theorem map_onMessage (server client : ByteOrder) {msgs : List Bytes}
    (hsize : ∀ msg, msg ∈ msgs → msg.length + 5 ≤ defaultPackageMaxLength)
    : (msgs.map (bufNew server)).map (onMessage client) = msgs.map received := by
  rw [List.map_map]
  apply List.map_congr_left
  intro msg hmsg
  exact onMessage_bufNew server client msg (hsize msg hmsg)

theorem delivered_of_prefix {hio : UnpackSetting → List Bytes → List Bytes} (hunpacks : Unpacks hio)
    (server client : ByteOrder) {msgs : List Bytes}
    (hsize : ∀ msg, msg ∈ msgs → msg.length + 5 ≤ defaultPackageMaxLength) {chunks : List Bytes}
    (hchunks : chunks.flatten <+: (msgs.map (bufNew server)).flatten)
    : ∃ delivered, delivered <+: msgs ∧
        (hio unpackSetting chunks).map (onMessage client) = delivered.map received ∧
        ∀ ms, ms <+: msgs →
          (ms <+: delivered ↔ (ms.map (bufNew server)).flatten.length ≤ chunks.flatten.length) := by
  have hframed : ∀ pkg, pkg ∈ msgs.map (bufNew server) →
      Framed unpackSetting.packageLength unpackSetting.packageMaxLength pkg := by
    intro pkg hpkg
    rcases List.mem_map.mp hpkg with ⟨msg, hmsg, heq⟩
    rw [← heq]
    exact framed_bufNew server msg (hsize msg hmsg)
  rcases splits_of_prefix (stable_packageLength unpackSetting) rfl hframed hchunks with
    ⟨qs, rest, hsplits, hqs, hiff⟩
  have hhio := hunpacks unpackSetting chunks qs rest rfl (by decide) hsplits
  rcases List.prefix_map_iff.mp hqs with ⟨delivered, hdelivered, heq⟩
  subst heq
  refine ⟨delivered, hdelivered, ?_, ?_⟩
  . rw [hhio]
    apply map_onMessage
    intro msg hmsg
    exact hsize msg (hdelivered.mem hmsg)
  . intro ms hms
    rw [← List.prefix_map_iff_of_injective (bufNew_injective server)]
    exact hiff _ (hms.map _)

/--
Whatever the messages are and however the stream of their frames is cut into chunks, the client sees
the messages in order, each with its length, and at every moment those whose frames have arrived.
-/
theorem onMessage_round_trip (hio : UnpackSetting → List Bytes → List Bytes)
    (hunpacks : Unpacks hio) (server client : ByteOrder) (msgs : List Bytes)
    (hsize : ∀ msg, msg ∈ msgs → msg.length + 5 ≤ defaultPackageMaxLength) (chunks : List Bytes)
    (hchunks : chunks.flatten = (msgs.map (bufNew server)).flatten)
    : (hio unpackSetting chunks).map (onMessage client) =
          msgs.map (fun msg => ⟨msg.length + 5, msg.length, msg⟩) ∧
        ∀ arrived, arrived <+: chunks →
          ∃ delivered, delivered <+: msgs ∧
            (hio unpackSetting arrived).map (onMessage client) =
              delivered.map (fun msg => ⟨msg.length + 5, msg.length, msg⟩) ∧
            ∀ ms, ms <+: msgs →
              (ms <+: delivered ↔
                (ms.map (bufNew server)).flatten.length ≤ arrived.flatten.length) := by
  constructor
  . have hall : chunks.flatten <+: (msgs.map (bufNew server)).flatten := by rw [hchunks]
    rcases delivered_of_prefix hunpacks server client hsize hall with
      ⟨delivered, hdelivered, hmap, hiff⟩
    have hmsgs : msgs <+: delivered := by
      rw [hiff msgs List.prefix_rfl, hchunks]
    have heq : delivered = msgs := hdelivered.eq_of_length_le hmsgs.length_le
    rw [hmap, heq]
    rfl
  . intro arrived harrived
    apply delivered_of_prefix hunpacks server client hsize
    rw [← hchunks]
    exact harrived.flatten

-- What libhv does, as far as the header tells.
def unpack (setting : UnpackSetting) (chunks : List Bytes) : List Bytes :=
  feed setting.packageLength [] chunks

theorem unpacks_unpack : Unpacks unpack := by
  intro setting chunks pkgs rest _ _ hsplits
  apply feed_of_splits (stable_packageLength setting) _ hsplits
  intro n _ hn
  rw [List.length_nil] at hn
  omega

-- An empty message and one with a NUL and an 'x', cut in the middle of both length fields.
theorem onMessage_round_trip_of_two
    : (unpack unpackSetting [[120, 0, 0], [0, 0, 120, 0, 0], [0, 2, 0], [120]]).map
          (onMessage .little) =
        [⟨5, 0, []⟩, ⟨7, 2, [0, 120]⟩] := by
  apply And.left
  apply onMessage_round_trip unpack unpacks_unpack .little .little [[], [0, 120]]
  . decide
  . decide

end Libhv
