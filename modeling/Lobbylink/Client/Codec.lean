import Lobbylink.Client.Interleaving

/-! The frame codec in both directions, and the frames of a message from end to end: the
receiver accepts each of them, and their payloads are the message. -/
namespace Lobbylink.Client.Codec
open Lib.Bytes Framing Sender Delivery Interleaving

theorem pos_of_chunkCount {len seq : Nat} (h : seq + 1 < (chunkCount len).toNat) : len ≠ 0 := by
  rintro rfl
  have hone : (chunkCount 0).toNat = 1 := rfl
  omega

theorem chunk_within {len seq : Nat} (hsize : len ≤ maxReliableMessage)
    (h : seq + 1 < (chunkCount len).toNat) : (seq + 1) * chunkPayload ≤ len := by
  have hpos := pos_of_chunkCount h
  unfold maxReliableMessage at hsize
  unfold chunkCount chunkPayload at h
  unfold chunkPayload
  rw [if_neg hpos] at h
  simp only [Nat.toUInt32, UInt32.toNat_ofNat'] at h
  omega

theorem chunk_start {len seq : Nat} (hsize : len ≤ maxReliableMessage)
    (h : seq < (chunkCount len).toNat) : seq * chunkPayload ≤ len := by
  cases seq with
  | zero => simp
  | succ seq => exact chunk_within hsize h

theorem length_chunk {data : Bytes} {seq : Nat} (hsize : data.length ≤ maxReliableMessage)
    (h : seq + 1 < (chunkCount data.length).toNat) :
    (piece chunkPayload data seq).length = chunkPayload := by
  have hwithin := chunk_within hsize h
  rw [Nat.succ_mul] at hwithin
  unfold piece
  rw [List.length_take, List.length_drop]
  omega

structure ReadAs (id : UInt32) (data : Bytes) (chunks : List Frame) : Prop where
  parsed : (List.range (chunkCount data.length).toNat).map
    (fun seq => parseFrame (chunkFrame id (chunkCount data.length) data seq)) = chunks.map .ok
  payloads : chunks.map Frame.payload =
    (List.range (chunkCount data.length).toNat).map (piece chunkPayload data)

theorem read_chunk (id : UInt32) {data : Bytes} (hsize : data.length ≤ maxReliableMessage)
    {seq : Nat} (hseq : seq < (chunkCount data.length).toNat) :
    ∃ f : Frame, parseFrame (chunkFrame id (chunkCount data.length) data seq) = .ok f ∧
      f.payload = piece chunkPayload data seq := by
  obtain ⟨f, -, htotal, -, hpay, hbytes⟩ := exists_frame id data hseq
  refine ⟨f, ?_, hpay⟩
  rw [hbytes]
  exact parse_bytes f (sends_fits hsize htotal hpay)

theorem exists_read (id : UInt32) {data : Bytes} (hsize : data.length ≤ maxReliableMessage) :
    ∃ chunks, ReadAs id data chunks := by
  have hall : ∀ k ≤ (chunkCount data.length).toNat, ∃ chunks : List Frame,
      (List.range k).map (fun seq => parseFrame (chunkFrame id (chunkCount data.length) data seq)) =
        chunks.map .ok ∧
      chunks.map Frame.payload = (List.range k).map (piece chunkPayload data) := by
    intro k
    induction k with
    | zero => exact fun _ => ⟨[], rfl, rfl⟩
    | succ k ih =>
      intro hk
      obtain ⟨chunks, hparsed, hpays⟩ := ih (Nat.le_of_succ_le hk)
      obtain ⟨f, hf, hpay⟩ := read_chunk id hsize hk
      refine ⟨chunks ++ [f], ?_, ?_⟩
      · rw [List.range_succ, List.map_append, List.map_append, hparsed, List.map_singleton,
          List.map_singleton, hf]
      · rw [List.range_succ, List.map_append, List.map_append, hpays, List.map_singleton,
          List.map_singleton, hpay]
  obtain ⟨chunks, hparsed, hpays⟩ := hall _ (Nat.le_refl _)
  exact ⟨chunks, hparsed, hpays⟩

theorem ReadAs.message {id : UInt32} {data : Bytes} {chunks : List Frame}
    (h : ReadAs id data chunks) (hsize : data.length ≤ maxReliableMessage) :
    (chunks.map Frame.payload).flatten = data := by
  rw [h.payloads, ← List.flatMap_def]
  exact (cut_message hsize).data

theorem ReadAs.full {id : UInt32} {data : Bytes} {chunks : List Frame}
    (h : ReadAs id data chunks) (hsize : data.length ≤ maxReliableMessage) {f : Frame}
    (hf : f ∈ chunks.dropLast) : f.payload.length = chunkPayload := by
  have hmem : f.payload ∈ (chunks.map Frame.payload).dropLast := by
    rw [← List.map_dropLast]
    exact List.mem_map_of_mem hf
  rw [h.payloads, ← List.map_dropLast] at hmem
  obtain ⟨seq, hseq, hpiece⟩ := List.mem_map.1 hmem
  rw [← hpiece]
  apply length_chunk hsize
  have hlt : seq < (chunkCount data.length).toNat - 1 := by
    simpa [List.dropLast_eq_take, List.take_range] using hseq
  omega

theorem sendOne_prefix (nextMsgId : UInt32) (job : SendJob) :
    (sendOne nextMsgId job).2.frames <+: (List.range (chunkCount job.data.length).toNat).map
      (chunkFrame nextMsgId (chunkCount job.data.length) job.data) := by
  unfold sendOne
  by_cases hready : job.ready = true
  · rw [if_pos hready]
    obtain ⟨k, hk, heq⟩ := chunkLoop_spec job nextMsgId (chunkCount job.data.length)
      (chunkCount job.data.length).toNat 0
    simp only [heq, ← List.range_eq_range']
    obtain ⟨d, hd⟩ := Nat.exists_eq_add_of_le hk
    rw [hd, List.range_add, List.map_append]
    exact List.prefix_append _ _
  · rw [if_neg hready]
    exact List.nil_prefix

theorem sendOne_whole {nextMsgId : UInt32} {job : SendJob} (h : (sendOne nextMsgId job).2.completed = true) :
    (sendOne nextMsgId job).2.frames = (List.range (chunkCount job.data.length).toNat).map
      (chunkFrame nextMsgId (chunkCount job.data.length) job.data) := by
  unfold sendOne at h ⊢
  by_cases hready : job.ready = true
  · rw [if_pos hready] at h ⊢
    obtain ⟨k, -, heq⟩ := chunkLoop_spec job nextMsgId (chunkCount job.data.length)
      (chunkCount job.data.length).toNat 0
    simp only [heq, decide_eq_true_eq] at h ⊢
    rw [h, ← List.range_eq_range']
  · rw [if_neg hready] at h
    cases h

theorem chunkLoop_completes {job : SendJob} (msgId total : UInt32) {left seq : Nat}
    (hpasses : ∀ k < seq + left, job.passes k = true) :
    (chunkLoop job msgId total left seq).completed = true := by
  induction left generalizing seq with
  | zero => rfl
  | succ left ih =>
    unfold chunkLoop
    rw [if_pos (hpasses seq (by omega))]
    exact ih fun k hk => hpasses k (by omega)

/-- A send comes to its end where the channel is open and every chunk gets through. -/
theorem sendOne_completes (nextMsgId : UInt32) {job : SendJob} (hready : job.ready = true)
    (hpasses : ∀ seq < (chunkCount job.data.length).toNat, job.passes seq = true) :
    (sendOne nextMsgId job).2.completed = true := by
  unfold sendOne
  rw [if_pos hready]
  exact chunkLoop_completes _ _ (by simpa using hpasses)

/-- Frames are read as they are made and made as they are read; the frames of a message
are all accepted and make it up again. -/
theorem codec_exact :
    (∀ (msgId seq total : UInt32) (payload : Bytes) (hseq : seq < total), 1 ≤ total →
      total ≤ maxReassemblyChunks → payload.length ≤ maxFramePayload →
      parseFrame (makeFrame msgId seq total payload) = .ok ⟨msgId, seq, total, payload, hseq⟩) ∧
    (∀ (buf : Bytes) (f : Frame), parseFrame buf = .ok f →
      makeFrame f.msgId f.seq f.total f.payload = buf) ∧
    ∀ (nextMsgId : UInt32) (job : SendJob), job.data.length ≤ maxReliableMessage →
      (∀ seq < (chunkCount job.data.length).toNat, seq * chunkPayload ≤ job.data.length) ∧
      (sendOne nextMsgId job).2.frames <+: (List.range (chunkCount job.data.length).toNat).map
        (chunkFrame nextMsgId (chunkCount job.data.length) job.data) ∧
      ((sendOne nextMsgId job).2.completed = true →
        (sendOne nextMsgId job).2.frames = (List.range (chunkCount job.data.length).toNat).map
          (chunkFrame nextMsgId (chunkCount job.data.length) job.data)) ∧
      (job.ready = true → (∀ seq < (chunkCount job.data.length).toNat, job.passes seq = true) →
        (sendOne nextMsgId job).2.completed = true) ∧
      ∃ chunks : List Frame,
        (List.range (chunkCount job.data.length).toNat).map (fun seq =>
          parseFrame (chunkFrame nextMsgId (chunkCount job.data.length) job.data seq)) =
            chunks.map .ok ∧
        (chunks.map Frame.payload).flatten = job.data ∧
        ∀ f ∈ chunks.dropLast, f.payload.length = chunkPayload := by
  refine ⟨fun msgId seq total payload hseq _ htotal hlen => ?_, fun buf f h => (parse_ok h).2, ?_⟩
  · exact parse_bytes ⟨msgId, seq, total, payload, hseq⟩ ⟨htotal, hlen⟩
  · intro nextMsgId job hsize
    obtain ⟨chunks, hread⟩ := exists_read nextMsgId hsize
    exact ⟨fun seq hseq => chunk_start hsize hseq, sendOne_prefix nextMsgId job, sendOne_whole,
      sendOne_completes nextMsgId, chunks, hread.parsed, hread.message hsize,
      fun f hf => hread.full hsize hf⟩

def hello : Bytes := [104, 101, 108, 108, 111]

def twoChunks : SendJob := ⟨List.replicate (chunkPayload + 1) 7, true, fun _ => true⟩

theorem twoChunks_count : chunkCount twoChunks.data.length = 2 := by
  unfold twoChunks
  rw [List.length_replicate]
  decide

/-- The frame of the round-trip test, and a message of two frames. -/
theorem codec_exact_hello :
    parseFrame (makeFrame 7 2 5 hello) = .ok ⟨7, 2, 5, hello, by decide⟩ ∧
    (∀ f, parseFrame (makeFrame 7 2 5 hello) = .ok f →
      makeFrame f.msgId f.seq f.total f.payload = makeFrame 7 2 5 hello) ∧
    (sendOne 3 twoChunks).2.frames =
      [chunkFrame 3 2 twoChunks.data 0, chunkFrame 3 2 twoChunks.data 1] ∧
    ∃ first last : Frame, parseFrame (chunkFrame 3 2 twoChunks.data 0) = .ok first ∧
      parseFrame (chunkFrame 3 2 twoChunks.data 1) = .ok last ∧
      first.payload ++ last.payload = twoChunks.data ∧ first.payload.length = chunkPayload := by
  have hsmall : twoChunks.data.length ≤ maxReliableMessage := by
    unfold twoChunks
    rw [List.length_replicate]
    decide
  have hparse := codec_exact.1 7 2 5 hello (by decide) (by decide) (by decide) (by decide)
  obtain ⟨-, -, hwhole, hcompletes, chunks, hparsed, hmessage, hfull⟩ :=
    codec_exact.2.2 3 twoChunks hsmall
  have hframes := hwhole (hcompletes rfl fun _ _ => rfl)
  have htwo : List.range (2 : UInt32).toNat = [0, 1] := rfl
  rw [twoChunks_count, htwo] at hframes hparsed
  have hlen : chunks.length = 2 := by simpa using (congrArg List.length hparsed).symm
  obtain ⟨first, last, rfl⟩ := List.length_eq_two.1 hlen
  simp only [List.map_cons, List.map_nil, List.cons.injEq, and_true] at hparsed
  exact ⟨hparse, codec_exact.2.1 _, hframes, first, last, hparsed.1, hparsed.2,
    by simpa using hmessage, hfull first List.mem_cons_self⟩

end Lobbylink.Client.Codec
