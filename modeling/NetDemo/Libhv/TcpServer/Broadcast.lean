import NetDemo.Libhv.TcpServer.Lemmas
import NetDemo.Libhv.RoundTrip

/-!
This module contains what `broadcast` hands to each connection, while connections come and go, and
what the clients make of it.
-/

namespace Libhv

namespace TcpServer

open Transition ListUpdate

-- What the broadcast in progress has not handed to the io yet.
def pending (broadcasting : Option (Bytes × List IoRef)) (k : IoRef) : List Bytes :=
  match broadcasting with
  | some (data, rest) => if k ∈ rest then [data] else []
  | none => []

@[simp]
theorem pending_none (k : IoRef) : pending none k = [] := by
  rfl

theorem pending_of_mem {data : Bytes} {rest : List IoRef} {k : IoRef} (h : k ∈ rest)
    : pending (some (data, rest)) k = [data] := by
  simp [pending, h]

theorem pending_of_notMem {data : Bytes} {rest : List IoRef} {k : IoRef} (h : k ∉ rest)
    : pending (some (data, rest)) k = [] := by
  simp [pending, h]

/--
What has been handed to an io: the broadcasts since its channel was added, up to the one in progress
as long as it is open.
-/
def Served (broadcasts : List Bytes) (pending : List Bytes) (io : Connio) (channel : Channel)
    : Prop :=
  io.joined ≤ broadcasts.length ∧
    if io.hio.opened then
      channel.written ++ pending = broadcasts.drop io.joined
    else
      channel.written <+: broadcasts.drop io.joined

def IoServed (broadcasts : List Bytes) (broadcasting : Option (Bytes × List IoRef)) (k : IoRef)
    (io : Connio)
    : Prop :=
  ∀ channel, io.channel = some channel → Served broadcasts (pending broadcasting k) io channel

def AllServed (s : TcpServer) : Prop :=
  ∀ k io, s.ios[k]? = some io → IoServed s.broadcasts s.broadcasting k io

theorem Served.isPrefix {broadcasts pending : List Bytes} {io : Connio} {channel : Channel}
    (h : Served broadcasts pending io channel)
    : channel.written <+: broadcasts.drop io.joined := by
  have ⟨_, hwritten⟩ := h
  split at hwritten
  . rw [← hwritten]
    apply List.prefix_append
  . exact hwritten

theorem Served.broadcast {broadcasts : List Bytes} {io : Connio} {channel : Channel}
    (h : Served broadcasts [] io channel) (data : Bytes) {pending : List Bytes}
    (hpending : io.hio.opened = true → pending = [data])
    : Served (broadcasts ++ [data]) pending io channel := by
  have ⟨hjoined, hwritten⟩ := h
  refine ⟨by rw [List.length_append]; omega, ?_⟩
  rw [List.drop_append_of_le_length hjoined]
  cases hopened : io.hio.opened with
  | true =>
    simp only [hopened, if_true, List.append_nil] at hwritten ⊢
    rw [hpending hopened, hwritten]
  | false =>
    simp only [hopened, Bool.false_eq_true, if_false] at hwritten ⊢
    exact hwritten.trans (List.prefix_append _ _)

theorem Served.write {broadcasts : List Bytes} {io : Connio} {channel : Channel} {data : Bytes}
    (h : Served broadcasts [data] io channel)
    (hstatus : channel.status = if io.hio.opened then .connected else .closed)
    : Served broadcasts [] io (channel.write io.hio data) := by
  have ⟨hjoined, hwritten⟩ := h
  refine ⟨hjoined, ?_⟩
  cases hopened : io.hio.opened with
  | true =>
    have hisOpened : channel.isOpened io.hio = true := by
      simp [Channel.isOpened, Status.down, hstatus, hopened]
    simp only [hopened, if_true] at hwritten
    simp [Channel.write_of_isOpened hisOpened, hwritten]
  | false =>
    have hisClosed : channel.isOpened io.hio = false := by simp [Channel.isOpened, hopened]
    simp only [hopened, Bool.false_eq_true, if_false] at hwritten
    simp [Channel.write_of_isClosed hisClosed, hwritten]

theorem Served.new (broadcasts : List Bytes) (io : Connio)
    : Served broadcasts [] { io with joined := broadcasts.length } ⟨.connected, []⟩ := by
  refine ⟨Nat.le_refl _, ?_⟩
  simp

theorem Served.close {broadcasts pending : List Bytes} {io : Connio} {channel : Channel}
    (h : Served broadcasts pending io channel)
    : Served broadcasts pending { io with hio.opened := false }
        { channel with status := .closed } := by
  refine ⟨h.left, ?_⟩
  simpa using h.isPrefix

theorem IoServed.write {broadcasts : List Bytes} {data : Bytes} {rest : List IoRef} {k : IoRef}
    {io : Connio} {channel : Channel}
    (h : IoServed broadcasts (some (data, k :: rest)) k io) (hnotMem : k ∉ rest)
    (hchannel : io.channel = some channel)
    (hstatus : channel.status = if io.hio.opened then .connected else .closed)
    : IoServed broadcasts (some (data, rest)) k
        { io with channel := some (channel.write io.hio data) } := by
  intro channel' hchannel'
  simp only [Option.some.injEq] at hchannel'
  have hserved := h channel hchannel
  rw [pending_of_mem List.mem_cons_self] at hserved
  rw [pending_of_notMem hnotMem, ← hchannel']
  exact hserved.write hstatus

theorem allServed_of_steps {s t : TcpServer} {e : TcpServerEvent} (hwf : s.Wf) (hs : s.AllServed)
    (h : Steps s e t)
    : t.AllServed := by
  cases h with
  | accepted fd w worker hfd hw =>
    intro k io hk channel hchannel
    rw [List.getElem?_append] at hk
    split at hk
    . exact hs k io hk channel hchannel
    . grind
  | refused w num k customEvents io hw hfree hmax hk hio =>
    have hnone : io.channel.isSome = false := congrArg IoState.hasChannel hio
    apply forall_set (p := IoServed s.broadcasts s.broadcasting)
    . intro channel hchannel
      dsimp only at hchannel
      simp [hchannel] at hnone
    . intro j io' _ hj
      exact hs j io' hj
  | checked w num k customEvents hw hfree hmax => exact hs
  | added w num k customEvents io hw hfree hk hio =>
    apply forall_set (p := IoServed s.broadcasts s.broadcasting)
    . intro channel hchannel
      simp only [Option.some.injEq] at hchannel
      rw [← hchannel, hfree, pending_none]
      exact Served.new s.broadcasts { io with channel := some ⟨.connected, []⟩ }
    . intro j io' _ hj
      exact hs j io' hj
  | connected w num k customEvents io hw hk hio => exact hs
  | closed w num k customEvents io channel hw hk hio hchannel =>
    apply forall_set (p := IoServed s.broadcasts s.broadcasting)
    . intro channel' hchannel'
      simp only [Option.some.injEq] at hchannel'
      rw [← hchannel']
      exact (hs k io hk channel hchannel).close
    . intro j io' _ hj
      exact hs j io' hj
  | disconnected w num k customEvents io hw hk hio => exact hs
  | removed w num k customEvents hw hfree => exact hs
  | released k io hk hio =>
    apply forall_set (p := IoServed s.broadcasts s.broadcasting)
    . exact hs k io hk
    . intro j io' _ hj
      exact hs j io' hj
  | broadcast data hfree =>
    intro k io hk channel hchannel
    have hserved := hs k io hk channel hchannel
    rw [hfree, pending_none] at hserved
    apply hserved.broadcast
    intro hopened
    apply pending_of_mem
    apply hwf.opened k io.loop
    exact ioState_eq_some.mpr ⟨io, hk, by simp [Connio.state, hopened, hchannel]⟩
  | wrote data k rest io channel hnext hk hchannel =>
    have hsorted := hwf.sorted.sublist (hwf.remaining _ _ hnext).sublist
    have hnotMem : k ∉ rest := by
      intro hmem
      exact Nat.lt_irrefl _ (List.rel_of_pairwise_cons hsorted hmem)
    have hself := hs k io hk
    rw [hnext] at hself
    apply forall_set (p := IoServed s.broadcasts (some (data, rest)))
    . exact hself.write hnotMem hchannel (hwf.status k io channel hk hchannel)
    . intro j io' hj hio' channel' hchannel'
      have hserved := hs j io' hio' channel' hchannel'
      rw [hnext] at hserved
      simpa [pending, hj] using hserved
  | done data hnext =>
    intro k io hk channel hchannel
    have hserved := hs k io hk channel hchannel
    rw [hnext, pending_of_notMem List.not_mem_nil] at hserved
    exact hserved

theorem served_of_run {threadNum max : Nat} {es : List TcpServerEvent} {s : TcpServer}
    (hrun : run step (new threadNum max) es = some s) {k : IoRef} {io : Connio}
    {channel : Channel} (hk : s.ios[k]? = some io) (hchannel : io.channel = some channel)
    : Served s.broadcasts (pending s.broadcasting k) io channel := by
  have hserved : s.AllServed := by
    apply And.right
    apply (wf_new threadNum max).inv_of_run _ _ hrun
    . intro s e t hwf hs h
      exact allServed_of_steps hwf hs h
    . intro k io hk
      simp [new] at hk
  exact hserved k io hk channel hchannel

/--
In every run, whatever the order in which connections open and close around the broadcasts, what is
written to a connection is what has been broadcast since its channel was added, in the same order,
nothing twice: all of it while the connection is open and no broadcast is in progress, and an
initial part of it otherwise.
-/
theorem written_of_run (threadNum max : Nat) (es : List TcpServerEvent) (s : TcpServer)
    (hrun : run step (new threadNum max) es = some s) (k : IoRef) (io : Connio)
    (channel : Channel) (hk : s.ios[k]? = some io) (hchannel : io.channel = some channel)
    : channel.written <+: s.broadcasts.drop io.joined ∧
        (io.hio.opened = true → s.broadcasting = none →
          channel.written = s.broadcasts.drop io.joined) := by
  have hserved := served_of_run hrun hk hchannel
  refine ⟨hserved.isPrefix, ?_⟩
  intro hopened hfree
  have ⟨_, hwritten⟩ := hserved
  rwa [hfree, pending_none, if_pos hopened, List.append_nil] at hwritten

-- A client that joins between two broadcasts and is closed in the middle of the next one.
def lateJoin : List TcpServerEvent :=
  [.broadcast (bufNew .little [65]), .broadcastDone, .onAccept 7 0, .newConnEvent 0, .addChannel 0,
    .onConnection 0, .broadcast (bufNew .little [66, 67]), .write, .broadcastDone, .broadcast [],
    .onClose 0, .write]

theorem written_of_run_lateJoin
    : ∃ s, run step (new 1 5) lateJoin = some s ∧
        [bufNew .little [66, 67]] <+: s.broadcasts.drop 1 := by
  refine ⟨_, rfl, ?_⟩
  exact (written_of_run 1 5 lateJoin _ rfl 0 _ _ rfl rfl).left

/--
From the sender thread to the callbacks of the clients: if the thread broadcasts the frames of
`msgs`, then whatever the connections do and however the bytes that have arrived are cut into
chunks, a client sees messages that were sent after it joined, from the first one on, in order and
unchanged. It has seen all of them once everything written to its open connection has arrived.
-/
theorem onMessage_of_run (hio : UnpackSetting → List Bytes → List Bytes) (hunpacks : Unpacks hio)
    (server client : ByteOrder) (threadNum max : Nat) (es : List TcpServerEvent) (s : TcpServer)
    (hrun : run step (new threadNum max) es = some s) (msgs : List Bytes)
    (hmsgs : s.broadcasts = msgs.map (bufNew server))
    (hsize : ∀ msg, msg ∈ msgs → msg.length + 5 ≤ defaultPackageMaxLength) (k : IoRef)
    (io : Connio) (channel : Channel) (hk : s.ios[k]? = some io)
    (hchannel : io.channel = some channel) (chunks : List Bytes)
    (hchunks : chunks.flatten <+: channel.written.flatten)
    : ∃ delivered, delivered <+: msgs.drop io.joined ∧
        (hio unpackSetting chunks).map (onMessage client) =
          delivered.map (fun msg => ⟨msg.length + 5, msg.length, msg⟩) ∧
        (io.hio.opened = true → s.broadcasting = none →
          chunks.flatten = channel.written.flatten → delivered = msgs.drop io.joined) := by
  have hserved := served_of_run hrun hk hchannel
  have hdrop : s.broadcasts.drop io.joined = (msgs.drop io.joined).map (bufNew server) := by
    rw [hmsgs, List.map_drop]
  have hprefix : chunks.flatten <+: ((msgs.drop io.joined).map (bufNew server)).flatten := by
    rw [← hdrop]
    exact hchunks.trans hserved.isPrefix.flatten
  have hsize' : ∀ msg, msg ∈ msgs.drop io.joined →
      msg.length + 5 ≤ defaultPackageMaxLength := by
    intro msg hmsg
    exact hsize msg (List.mem_of_mem_drop hmsg)
  rcases delivered_of_prefix hunpacks server client hsize' hprefix with
    ⟨delivered, hdelivered, hmap, hiff⟩
  refine ⟨delivered, hdelivered, hmap, ?_⟩
  intro hopened hfree hall
  have ⟨_, hwritten⟩ := hserved
  rw [hfree, pending_none, if_pos hopened, List.append_nil, hdrop] at hwritten
  have hle : msgs.drop io.joined <+: delivered := by
    rw [hiff _ List.prefix_rfl, hall, hwritten]
  exact hdelivered.eq_of_length_le hle.length_le

theorem onMessage_of_run_lateJoin
    : (unpack unpackSetting [[120, 0, 0], [0, 2, 66, 67]]).map (onMessage .little) =
        [⟨7, 2, [66, 67]⟩] := by
  have h := onMessage_of_run unpack unpacks_unpack .little .little 1 5 (lateJoin.take 9) _ rfl
    [[65], [66, 67]] rfl (by decide) 0 _ _ rfl rfl [[120, 0, 0], [0, 2, 66, 67]] (by decide)
  rcases h with ⟨delivered, _, hmap, hall⟩
  rw [hmap, hall rfl rfl rfl]
  rfl

end TcpServer

end Libhv
