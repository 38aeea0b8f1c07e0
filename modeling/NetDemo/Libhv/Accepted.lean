import NetDemo.Libhv.RoundTrip

/-!
This module contains what the client sees of a stream that anyone may have sent: the converse of the
round trip.
-/

namespace Libhv

open StreamSplit

-- The client does not look at the first byte.
def frame (host : ByteOrder) (head : UInt8) (msg : Bytes) : Bytes :=
  head :: (bufNew host msg).tail

theorem frame_eq (host : ByteOrder) (head : UInt8) (msg : Bytes)
    : frame host head msg = head :: (ByteOrder.big.store 4 msg.length ++ msg) := by
  unfold frame
  rw [bufNew_eq]
  rfl

theorem frame_bufNew (host : ByteOrder) (msg : Bytes) : frame host 120 msg = bufNew host msg := by
  rw [frame_eq, bufNew_eq]
  rfl

theorem packageLength_of_le {stream : Bytes} (h : 5 ≤ stream.length)
    : unpackSetting.packageLength stream =
        some (5 + ByteOrder.big.load ((stream.drop 1).take 4)) := by
  have hfield : ((stream.take 5).drop 1).take 4 = (stream.drop 1).take 4 := by
    rw [List.drop_take, List.take_take]
    rfl
  simp only [UnpackSetting.packageLength, unpackSetting, h, if_true, hfield, Int.add_zero]
  rw [Option.some.injEq]
  omega

theorem length_of_packageLength {stream : Bytes} {n : Nat}
    (h : unpackSetting.packageLength stream = some n)
    : 5 ≤ stream.length := by
  apply Nat.le_of_not_lt
  intro hlt
  have hle : ¬ 5 ≤ stream.length := by omega
  simp [UnpackSetting.packageLength, unpackSetting, hle] at h

theorem le_packageLength {stream : Bytes} {n : Nat}
    (h : unpackSetting.packageLength stream = some n)
    : 5 ≤ n := by
  rw [packageLength_of_le (length_of_packageLength h), Option.some.injEq] at h
  omega

theorem exists_frame (host : ByteOrder) {pkg stream : Bytes}
    (h : unpackSetting.packageLength (pkg ++ stream) = some pkg.length)
    : ∃ head msg, pkg = frame host head msg ∧ msg.length + 5 = pkg.length := by
  have hle := le_packageLength h
  rw [packageLength_of_le (length_of_packageLength h), Option.some.injEq] at h
  cases pkg with
  | nil => simp at hle
  | cons head body =>
    rw [List.length_cons] at hle h
    have hfield : ((head :: body ++ stream).drop 1).take 4 = body.take 4 := by
      rw [List.cons_append, List.drop_succ_cons, List.drop_zero]
      apply List.take_append_of_le_length
      omega
    have hlength : (body.drop 4).length = ByteOrder.big.load (body.take 4) := by
      rw [hfield] at h
      rw [List.length_drop]
      omega
    have hstore : ByteOrder.big.store 4 (body.drop 4).length = body.take 4 := by
      have hfour : (body.take 4).length = 4 := by
        rw [List.length_take]
        omega
      have hload := ByteOrder.store_load .big (body.take 4)
      rwa [hfour, ← hlength] at hload
    refine ⟨head, body.drop 4, ?_, ?_⟩
    . rw [frame_eq, hstore, List.take_append_drop]
    . rw [List.length_drop, List.length_cons]
      omega

theorem onMessage_frame (server client : ByteOrder) (head : UInt8) (msg : Bytes)
    (hsize : msg.length + 5 ≤ defaultPackageMaxLength)
    : onMessage client (frame server head msg) = received msg := by
  rw [← onMessage_bufNew server client msg hsize, ← frame_bufNew]
  simp [onMessage, frame]

theorem frames_of_splits (host : ByteOrder) {stream rest : Bytes} {pkgs : List Bytes}
    (h : Splits unpackSetting.packageLength unpackSetting.packageMaxLength stream pkgs rest)
    : ∃ frames : List (UInt8 × Bytes),
        pkgs = frames.map (fun f => frame host f.1 f.2) ∧
          stream = pkgs.flatten ++ rest ∧
          ∀ f, f ∈ frames → f.2.length + 5 ≤ defaultPackageMaxLength := by
  induction h with
  | rest stream _ =>
    refine ⟨[], rfl, rfl, ?_⟩
    simp
  | package pkg stream pkgs rest _ hnext hbound _ ih =>
    rcases ih with ⟨frames, hpkgs, hstream, hframes⟩
    rcases exists_frame host hnext with ⟨head, msg, hpkg, hlength⟩
    refine ⟨(head, msg) :: frames, ?_, ?_, ?_⟩
    . rw [List.map_cons, ← hpkgs, hpkg]
    . rw [List.flatten_cons, List.append_assoc, ← hstream]
    . intro f hf
      cases List.mem_cons.mp hf with
      | inl heq =>
        rw [heq, hlength]
        exact hbound
      | inr hmem => exact hframes f hmem

/--
Whoever sends the stream, as long as no length above the maximum is announced in it: it is a
sequence of frames that the server could have sent, but for their first bytes, with an incomplete
one at the end, and the client sees the message of each, with its length.
-/
theorem onMessage_of_stream (hio : UnpackSetting → List Bytes → List Bytes)
    (hunpacks : Unpacks hio) (server client : ByteOrder) (chunks : List Bytes)
    (hlong : ¬ TooLong unpackSetting.packageLength unpackSetting.packageMaxLength chunks.flatten)
    : ∃ (frames : List (UInt8 × Bytes)) (rest : Bytes),
        chunks.flatten = (frames.map (fun f => frame server f.1 f.2)).flatten ++ rest ∧
          (∀ n, unpackSetting.packageLength rest = some n → rest.length < n) ∧
          (∀ f, f ∈ frames → f.2.length + 5 ≤ defaultPackageMaxLength) ∧
          (hio unpackSetting chunks).map (onMessage client) =
            frames.map (fun f => ⟨f.2.length + 5, f.2.length, f.2⟩) := by
  have hpos : ∀ stream n, unpackSetting.packageLength stream = some n → 0 < n := by
    intro stream n h
    have hle := le_packageLength h
    omega
  rcases exists_splits hpos _ _ (Nat.le_refl _) hlong with ⟨pkgs, rest, hsplits⟩
  rcases frames_of_splits server hsplits with ⟨frames, hpkgs, hstream, hframes⟩
  refine ⟨frames, rest, ?_, hsplits.lt_of_next, hframes, ?_⟩
  . rw [hstream, hpkgs]
  . rw [hunpacks unpackSetting chunks pkgs rest rfl (by decide) hsplits, hpkgs, List.map_map]
    apply List.map_congr_left
    intro f hf
    apply onMessage_frame server client f.1 f.2 (hframes f hf)

-- A frame of one byte whose first byte is a 7, and two bytes of a second frame.
theorem onMessage_of_stream_foreign
    : ∃ (frames : List (UInt8 × Bytes)) (rest : Bytes),
        [7, 0, 0, 0, 1, 65, 120, 0] =
            (frames.map (fun f => frame .little f.1 f.2)).flatten ++ rest ∧
          (∀ n, unpackSetting.packageLength rest = some n → rest.length < n) ∧
          (∀ f, f ∈ frames → f.2.length + 5 ≤ defaultPackageMaxLength) ∧
          (unpack unpackSetting [[7, 0, 0], [0, 1, 65, 120, 0]]).map (onMessage .big) =
            frames.map (fun f => ⟨f.2.length + 5, f.2.length, f.2⟩) := by
  apply onMessage_of_stream unpack unpacks_unpack .little .big [[7, 0, 0], [0, 1, 65, 120, 0]]
  have hrest : Splits unpackSetting.packageLength unpackSetting.packageMaxLength [120, 0] []
      [120, 0] := by
    apply Splits.rest
    intro n hn
    have hle := length_of_packageLength hn
    simp at hle
  have hsplits : Splits unpackSetting.packageLength unpackSetting.packageMaxLength
      ([7, 0, 0, 0, 1, 65] ++ [120, 0]) [[7, 0, 0, 0, 1, 65]] [120, 0] := by
    apply Splits.package _ _ _ _ _ _ _ hrest
    . decide
    . decide
    . decide
  apply hsplits.not_tooLong

end Libhv
