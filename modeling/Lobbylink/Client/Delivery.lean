import Lobbylink.Client.Reassembly
import Lobbylink.Client.Sender

/-! One link from end to end. The channel hands over the frames it took, in order
and once each; whatever attempts were cut short, the receiver emits exactly the
messages whose sends completed. -/
namespace Lobbylink.Client.Delivery
open Lib.Bytes Framing Reassembly Sender

variable {τ : Type} [Sub τ] [LE τ] [DecidableLE τ] {timeout : τ}

theorem receive_ok {r : Reassembler τ} {buf : Bytes} {now : τ} {f : Frame}
    (h : parseFrame buf = .ok f) (rest : List (Bytes × τ)) :
    r.receive timeout ((buf, now) :: rest) =
      (((r.push timeout f now).1.receive timeout rest).1,
        (r.push timeout f now).2.toList ++ ((r.push timeout f now).1.receive timeout rest).2) := by
  rw [Reassembler.receive, h]

theorem receive_append (r : Reassembler τ) (a b : List (Bytes × τ)) :
    r.receive timeout (a ++ b) =
      (((r.receive timeout a).1.receive timeout b).1,
        (r.receive timeout a).2 ++ ((r.receive timeout a).1.receive timeout b).2) := by
  induction a generalizing r with
  | nil => rfl
  | cons x rest ih =>
    obtain ⟨buf, now⟩ := x
    simp only [List.cons_append, Reassembler.receive]
    cases parseFrame buf with
    | error _ => exact ih r
    | ok frame => simp only [ih, List.append_assoc]

/-- What a receiver of message `id` needs to know: the chunks cover a message of
a permitted length. -/
structure Cut (total : UInt32) (data : Bytes) : Prop where
  count : total ≤ maxReassemblyChunks
  covers : data.length ≤ total.toNat * chunkPayload
  size : data.length ≤ maxReliableMessage

theorem Cut.data {total : UInt32} {data : Bytes} (h : Cut total data) :
    (List.range total.toNat).flatMap (piece chunkPayload data) = data :=
  flatMap_pieces_all h.covers

/-- What arrives of the other messages stays as it is. -/
def Untouched (r r' : Reassembler τ) (id : UInt32) : Prop :=
  ∀ id', id' ≠ id → r.inflight id' = none → r'.inflight id' = none

theorem exists_frame (id : UInt32) {total : UInt32} (data : Bytes) {seq : Nat}
    (hseq : seq < total.toNat) :
    ∃ f : Frame, f.msgId = id ∧ f.total = total ∧ f.seq.toNat = seq ∧
      f.payload = piece chunkPayload data seq ∧ chunkFrame id total data seq = f.bytes := by
  have htotal := total.toNat_lt
  have hword : seq.toUInt32.toNat = seq := by
    simp only [Nat.toUInt32, UInt32.toNat_ofNat']
    omega
  have hlt : seq.toUInt32 < total := by rwa [UInt32.lt_iff_toNat_lt, hword]
  refine ⟨⟨id, seq.toUInt32, total, piece chunkPayload data seq, hlt⟩, rfl, rfl, hword, rfl, ?_⟩
  simp only [chunkFrame, slice_piece, Frame.bytes]

theorem receive_chunk (timeout : τ) {r : Reassembler τ} {id total : UInt32} {data : Bytes}
    {start now : τ} {seq : Nat} (hcut : Cut total data) (hseq : seq < total.toNat)
    (hhas : r.Has id total (piece chunkPayload data) start seq)
    (hfirst : seq = 0 → start = now) (hlater : 0 < seq → now - start ≤ timeout)
    (rest : List (Bytes × τ)) :
    ∃ r' : Reassembler τ, r'.Has id total (piece chunkPayload data) start (seq + 1) ∧
      Untouched r r' id ∧ r.receive timeout ((chunkFrame id total data seq, now) :: rest) =
        ((r'.receive timeout rest).1,
          (if seq + 1 = total.toNat then [data] else []) ++ (r'.receive timeout rest).2) := by
  obtain ⟨f, rfl, rfl, hword, hpay, hbytes⟩ := exists_frame id data hseq
  have hfits : f.Fits := by
    refine ⟨hcut.count, ?_⟩
    rw [hpay]
    refine Nat.le_trans (length_piece_le _ _ _) ?_
    unfold chunkPayload maxFramePayload
    omega
  obtain ⟨hhas', hout, hother⟩ := push_next timeout hhas hword hpay hfirst hlater
    (by rw [hcut.data]; exact hcut.size)
  rw [hcut.data] at hout
  refine ⟨(r.push timeout f now).1, hhas', hother, ?_⟩
  rw [hbytes, receive_ok (parse_bytes f hfits), hout]
  by_cases hlast : seq + 1 = f.total.toNat
  · rw [if_pos hlast, if_pos hlast, Option.toList_some]
  · rw [if_neg hlast, if_neg hlast, Option.toList_none]

theorem receive_rest {id total : UInt32} {data : Bytes} {start : τ} (hcut : Cut total data)
    (arrivals : List (Bytes × τ)) {k seq : Nat} {r : Reassembler τ}
    (hframes : arrivals.map Prod.fst = (List.range' seq k).map (chunkFrame id total data))
    (hfit : seq + k ≤ total.toNat) (hpos : 0 < seq)
    (hhas : r.Has id total (piece chunkPayload data) start seq)
    (htime : ∀ a ∈ arrivals, a.2 - start ≤ timeout) :
    ∃ r' : Reassembler τ, Untouched r r' id ∧ r.receive timeout arrivals =
      (r', if 0 < k ∧ seq + k = total.toNat then [data] else []) := by
  induction arrivals generalizing k seq r with
  | nil =>
    have hk : k = 0 := by simpa using (congrArg List.length hframes).symm
    exact ⟨r, fun _ _ h => h, by simp [Reassembler.receive, hk]⟩
  | cons a rest ih =>
    obtain ⟨buf, now⟩ := a
    cases k with
    | zero => simp at hframes
    | succ k =>
      simp only [List.map_cons, List.range'_succ, List.cons.injEq] at hframes
      obtain ⟨rfl, hrest⟩ := hframes
      have hnow : now - start ≤ timeout := htime (_, now) List.mem_cons_self
      obtain ⟨r₁, hhas₁, hother₁, heq₁⟩ := receive_chunk timeout hcut (by omega) hhas
        (fun h => absurd h (Nat.ne_of_gt hpos)) (fun _ => hnow) rest
      obtain ⟨r₂, hother₂, heq₂⟩ := ih hrest (by omega) (Nat.succ_pos seq) hhas₁
        fun a ha => htime a (List.mem_cons_of_mem _ ha)
      refine ⟨r₂, fun id' hid h => hother₂ id' hid (hother₁ id' hid h), ?_⟩
      rw [heq₁, heq₂]
      by_cases hlast : seq + 1 = total.toNat
      · obtain rfl : k = 0 := by omega
        simp [hlast]
      · have hiff : (0 < k ∧ seq + 1 + k = total.toNat) ↔ seq + (k + 1) = total.toNat := by omega
        simp [hlast, hiff]

/-- All arrivals of one message come within the timeout of its first one. -/
def InTime (timeout : τ) : List (Bytes × τ) → Prop
  | [] => True
  | first :: rest => ∀ a ∈ rest, a.2 - first.2 ≤ timeout

theorem receive_burst {id total : UInt32} {data : Bytes} (hcut : Cut total data)
    (arrivals : List (Bytes × τ)) {k : Nat} {r : Reassembler τ}
    (hframes : arrivals.map Prod.fst = (List.range' 0 k).map (chunkFrame id total data))
    (hfit : k ≤ total.toNat) (hnew : r.inflight id = none) (htime : InTime timeout arrivals) :
    ∃ r' : Reassembler τ, Untouched r r' id ∧ r.receive timeout arrivals =
      (r', if 0 < k ∧ k = total.toNat then [data] else []) := by
  cases arrivals with
  | nil =>
    have hk : k = 0 := by simpa using (congrArg List.length hframes).symm
    exact ⟨r, fun _ _ h => h, by simp [Reassembler.receive, hk]⟩
  | cons a rest =>
    obtain ⟨buf, now⟩ := a
    cases k with
    | zero => simp at hframes
    | succ k =>
      simp only [List.map_cons, List.range'_succ, List.cons.injEq] at hframes
      obtain ⟨rfl, hrest⟩ := hframes
      obtain ⟨r₁, hhas₁, hother₁, heq₁⟩ := receive_chunk timeout hcut
        (by omega : 0 < total.toNat) (has_zero hnew total _ now) (fun _ => rfl)
        (fun h => absurd h (Nat.lt_irrefl 0)) rest
      obtain ⟨r₂, hother₂, heq₂⟩ := receive_rest hcut rest hrest (by omega) Nat.one_pos hhas₁ htime
      refine ⟨r₂, fun id' hid h => hother₂ id' hid (hother₁ id' hid h), ?_⟩
      rw [heq₁, heq₂]
      by_cases hlast : 1 = total.toNat
      · obtain rfl : k = 0 := by omega
        simp [← hlast]
      · have hiff : (0 < k ∧ 1 + k = total.toNat) ↔ k + 1 = total.toNat := by omega
        simp [hlast, hiff]

/-- No message with an id from `n` on has arrived in part. -/
def FreshFrom (n : Nat) (r : Reassembler τ) : Prop :=
  ∀ id : UInt32, n ≤ id.toNat → r.inflight id = none

/-- One message: it is emitted if its send completed, and otherwise nothing is. -/
theorem receive_sent {job : SendJob} (hsize : job.data.length ≤ maxReliableMessage) {n : Nat}
    (hn : n < 2 ^ 32) {r : Reassembler τ} (hfresh : FreshFrom n r) {arrivals : List (Bytes × τ)}
    (hframes : arrivals.map Prod.fst = (sendOne (UInt32.ofNat n) job).2.frames)
    (htime : InTime timeout arrivals) :
    ∃ n' r', (sendOne (UInt32.ofNat n) job).1 = UInt32.ofNat n' ∧ n' ≤ n + 1 ∧
      FreshFrom n' r' ∧ r.receive timeout arrivals =
        (r', if (sendOne (UInt32.ofNat n) job).2.completed then [job.data] else []) := by
  unfold sendOne at hframes ⊢
  by_cases hready : job.ready = true
  · simp only [hready, if_true] at hframes ⊢
    set total := chunkCount job.data.length with htotal
    obtain ⟨hone, hcount, hcovers⟩ := chunkCount_spec hsize
    rw [← htotal] at hone hcount hcovers
    have hcut : Cut total job.data := ⟨UInt32.le_iff_toNat_le.2 hcount, hcovers, hsize⟩
    obtain ⟨k, hk, heq⟩ := chunkLoop_spec job (UInt32.ofNat n) total total.toNat 0
    rw [heq] at hframes ⊢
    have hid : (UInt32.ofNat n).toNat = n := by
      rw [UInt32.toNat_ofNat']
      exact Nat.mod_eq_of_lt hn
    obtain ⟨r', hother, hreceive⟩ := receive_burst hcut arrivals hframes hk
      (hfresh _ (Nat.le_of_eq hid.symm)) htime
    refine ⟨n + 1, r', (UInt32.ofNat_add n 1).symm, Nat.le_refl _, fun id hle => ?_, ?_⟩
    · have hlt : n < id.toNat := hle
      exact hother id (fun h => Nat.ne_of_gt hlt (h ▸ hid)) (hfresh id (Nat.le_of_lt hlt))
    · rw [hreceive]
      have hiff : (0 < k ∧ k = total.toNat) ↔ k = total.toNat := by omega
      simp only [hiff, decide_eq_true_eq]
  · simp only [hready, Bool.false_eq_true, if_false, List.map_eq_nil_iff] at hframes ⊢
    subst hframes
    exact ⟨n, r, rfl, Nat.le_succ n, hfresh, rfl⟩

def completed : List SendJob → List Sent → List Bytes
  | job :: queue, sent :: rest =>
    if sent.completed then job.data :: completed queue rest else completed queue rest
  | _, _ => []

theorem receive_queue (queue : List SendJob)
    (hsize : ∀ job ∈ queue, job.data.length ≤ maxReliableMessage) {n : Nat}
    (hn : n + queue.length ≤ 2 ^ 32) {r : Reassembler τ} (hfresh : FreshFrom n r)
    {arrivals : List (List (Bytes × τ))}
    (hchannel : arrivals.map (List.map Prod.fst) =
      (senderTask (UInt32.ofNat n) queue).map Sent.frames)
    (htime : ∀ burst ∈ arrivals, InTime timeout burst) :
    (r.receive timeout arrivals.flatten).2 =
      completed queue (senderTask (UInt32.ofNat n) queue) := by
  induction queue generalizing n r arrivals with
  | nil =>
    obtain rfl : arrivals = [] := by simpa [senderTask] using hchannel
    rfl
  | cons job queue ih =>
    cases arrivals with
    | nil => cases hchannel
    | cons burst arrivals =>
      simp only [senderTask, List.map_cons, List.cons.injEq] at hchannel
      obtain ⟨hframes, hrest⟩ := hchannel
      rw [List.length_cons] at hn
      obtain ⟨n', r', hnext, hle, hfresh', hreceive⟩ := receive_sent
        (hsize job List.mem_cons_self) (by omega) hfresh hframes (htime burst List.mem_cons_self)
      have hqueue := ih (fun job' h => hsize job' (List.mem_cons_of_mem _ h)) (by omega) hfresh'
        (hnext ▸ hrest) fun b hb => htime b (List.mem_cons_of_mem _ hb)
      rw [List.flatten_cons, receive_append, hreceive]
      simp only [senderTask, completed, hqueue, hnext]
      split_ifs <;> rfl

/-- Whatever happens to the sends, the receiver emits the messages that were sent
whole, byte for byte, once each and in order. -/
theorem delivery_exact (timeout : τ) (queue : List SendJob)
    (hsize : ∀ job ∈ queue, job.data.length ≤ maxReliableMessage) (hcount : queue.length < 2 ^ 32)
    (arrivals : List (List (Bytes × τ)))
    (hchannel : arrivals.map (List.map Prod.fst) = (senderTask 0 queue).map Sent.frames)
    (htime : ∀ burst ∈ arrivals, InTime timeout burst) :
    (Reassembler.empty.receive timeout arrivals.flatten).2 =
      completed queue (senderTask 0 queue) :=
  receive_queue queue hsize (n := 0) (by omega) (fun _ _ => rfl) hchannel htime

/-- A message of two chunks that is cut short after the first, then a short one. -/
def cutQueue : List SendJob :=
  [⟨List.replicate 20000 7, true, fun seq => seq == 0⟩, ⟨[1, 2, 3], true, fun _ => true⟩]

def instantly (sent : List Sent) : List (List (Bytes × Int)) :=
  sent.map fun s => s.frames.map fun frame => (frame, 0)

theorem completed_cutQueue : completed cutQueue (senderTask 0 cutQueue) = [[1, 2, 3]] := by
  have hlong : (chunkCount (List.replicate 20000 (7 : UInt8)).length).toNat = 2 := by
    rw [List.length_replicate]
    rfl
  have hshort : (chunkCount [1, 2, (3 : UInt8)].length).toNat = 1 := rfl
  simp only [cutQueue, senderTask, sendOne, if_true, hlong, hshort, chunkLoop, completed]
  rfl

theorem delivery_exact_cut : (Reassembler.empty.receive (30000 : Int)
    (instantly (senderTask 0 cutQueue)).flatten).2 = [[1, 2, 3]] := by
  refine (delivery_exact 30000 cutQueue ?_ (by decide) _ ?_ ?_).trans completed_cutQueue
  · intro job hjob
    simp only [cutQueue, List.mem_cons, List.not_mem_nil, or_false] at hjob
    unfold maxReliableMessage
    rcases hjob with rfl | rfl
    · rw [List.length_replicate]
      omega
    · decide
  · simp [instantly, Function.comp_def]
  · intro burst hburst
    obtain ⟨s, -, rfl⟩ := List.mem_map.1 hburst
    cases s.frames with
    | nil => trivial
    | cons frame rest =>
      intro a ha
      obtain ⟨frame', -, rfl⟩ := List.mem_map.1 ha
      change (0 : Int) - 0 ≤ 30000
      decide

end Lobbylink.Client.Delivery
