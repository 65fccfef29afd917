import Lobbylink.Client.Framing

/-! Sending the queued messages of one player over one link. What the link and its
transport do to a message is decided in advance, chunk by chunk. -/
namespace Lobbylink.Client.Sender
open Lib.Bytes Framing

/-- A queued message with its luck: whether a link with an open channel is found
in time, and for each chunk whether the link is still up, its buffer drains and
the channel takes the frame. -/
structure SendJob where
  data : Bytes
  ready : Bool
  passes : Nat → Bool

/-- What became of a message: the frames the channel took, and whether it took all. -/
structure Sent where
  frames : List Bytes
  completed : Bool

/-- `&data[start..end]`. -/
def slice (data : Bytes) (first last : Nat) : Bytes := (data.take last).drop first

/-- The frame of chunk `seq`. -/
def chunkFrame (msgId total : UInt32) (data : Bytes) (seq : Nat) : Bytes :=
  let first := seq * chunkPayload
  let last := min (first + chunkPayload) data.length
  makeFrame msgId seq.toUInt32 total (slice data first last)

/-- `for seq in 0..total`, with the number of rounds left. -/
def chunkLoop (job : SendJob) (msgId total : UInt32) : Nat → Nat → Sent
  | 0, _ => ⟨[], true⟩
  | left + 1, seq =>
    if job.passes seq then
      let rest := chunkLoop job msgId total left (seq + 1)
      ⟨chunkFrame msgId total job.data seq :: rest.frames, rest.completed⟩
    else ⟨[], false⟩

/-- Returns the next message id of the link too. -/
def sendOne (nextMsgId : UInt32) (job : SendJob) : UInt32 × Sent :=
  if job.ready then
    let total := chunkCount job.data.length
    (nextMsgId + 1, chunkLoop job nextMsgId total total.toNat 0)
  else (nextMsgId, ⟨[], false⟩)

def senderTask : UInt32 → List SendJob → List Sent
  | _, [] => []
  | nextMsgId, job :: queue =>
    let (nextMsgId, sent) := sendOne nextMsgId job
    sent :: senderTask nextMsgId queue

theorem slice_piece (data : Bytes) (seq : Nat) :
    slice data (seq * chunkPayload) (min (seq * chunkPayload + chunkPayload) data.length) =
      piece chunkPayload data seq := by
  unfold slice piece
  rw [← List.take_eq_take_min, List.drop_take, Nat.add_sub_cancel_left]

theorem chunkLoop_spec (job : SendJob) (msgId total : UInt32) (left seq : Nat) :
    ∃ k, k ≤ left ∧ chunkLoop job msgId total left seq =
      ⟨(List.range' seq k).map (chunkFrame msgId total job.data), decide (k = left)⟩ := by
  induction left generalizing seq with
  | zero => exact ⟨0, Nat.le_refl 0, rfl⟩
  | succ left ih =>
    unfold chunkLoop
    by_cases hpass : job.passes seq = true
    · obtain ⟨k, hk, heq⟩ := ih (seq + 1)
      refine ⟨k + 1, Nat.succ_le_succ hk, ?_⟩
      simp only [hpass, if_true, heq, List.range'_succ, List.map_cons, Nat.add_right_cancel_iff]
    · exact ⟨0, Nat.zero_le _, by simp [hpass]⟩

theorem chunkCount_spec {len : Nat} (h : len ≤ maxReliableMessage) :
    1 ≤ (chunkCount len).toNat ∧ (chunkCount len).toNat ≤ maxReassemblyChunks.toNat ∧
      len ≤ (chunkCount len).toNat * chunkPayload := by
  unfold maxReliableMessage at h
  have hmax : maxReassemblyChunks.toNat = 4096 := rfl
  rw [hmax]
  unfold chunkCount chunkPayload
  split_ifs with hzero
  · have hone : (1 : UInt32).toNat = 1 := rfl
    omega
  · simp only [Nat.toUInt32, UInt32.toNat_ofNat']
    omega

end Lobbylink.Client.Sender
