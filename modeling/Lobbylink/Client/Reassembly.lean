import Lobbylink.Client.Framing

/-! Putting the chunks of a sender's messages together again. Times are of any
type with a subtraction and an order; the clock of the code is a float. -/
namespace Lobbylink.Client.Reassembly
open Framing

/-- Incomplete messages are dropped after this long. -/
def reassemblyTimeoutMs : Nat := 30000

variable {τ : Type}

structure Entry (τ : Type) where
  total : UInt32
  chunks : List (Option Bytes)
  received : Nat
  bytes : Nat
  startedAt : τ
  chunks_length : chunks.length = total.toNat
  received_eq : received = chunks.countP (·.isSome)

/-- `inflight`, by message id. -/
structure Reassembler (τ : Type) where
  inflight : UInt32 → Option (Entry τ)

def Reassembler.empty : Reassembler τ := ⟨fun _ => none⟩

def Entry.new (total : UInt32) (now : τ) : Entry τ where
  total := total
  chunks := List.replicate total.toNat none
  received := 0
  bytes := 0
  startedAt := now
  chunks_length := List.length_replicate
  received_eq := by
    rw [List.countP_replicate]
    rfl

theorem countP_set {l : List (Option Bytes)} {i : Nat} {payload : Bytes}
    (h : l[i]? = some none) :
    (l.set i (some payload)).countP (·.isSome) = l.countP (·.isSome) + 1 := by
  induction l generalizing i with
  | nil => simp at h
  | cons x rest ih =>
    cases i with
    | zero =>
      obtain rfl : x = none := by simpa using h
      simp
    | succ i =>
      simp only [List.getElem?_cons_succ] at h
      simp only [List.set_cons_succ, List.countP_cons, ih h]
      omega

/-- Puts a chunk where none is yet; a chunk that is there already stays. -/
def Entry.store (e : Entry τ) (seq : Nat) (payload : Bytes) : Entry τ :=
  if h : e.chunks[seq]? = some none then
    { e with
      chunks := e.chunks.set seq (some payload)
      received := e.received + 1
      bytes := e.bytes + payload.length
      chunks_length := by rw [List.length_set, e.chunks_length]
      received_eq := by rw [e.received_eq, countP_set h] }
  else e

def Entry.data (e : Entry τ) : Bytes := e.chunks.flatMap (·.getD [])

def Reassembler.set (r : Reassembler τ) (id : UInt32) (e : Option (Entry τ)) : Reassembler τ :=
  ⟨fun id' => if id' = id then e else r.inflight id'⟩

variable [Sub τ] [LE τ] [DecidableLE τ]

def Reassembler.prune (timeout : τ) (r : Reassembler τ) (now : τ) : Reassembler τ :=
  ⟨fun id => (r.inflight id).filter fun e => now - e.startedAt ≤ timeout⟩

/-- The entry the frame belongs to: one with another number of chunks is another message. -/
def Reassembler.entry (r : Reassembler τ) (frame : Frame) (now : τ) : Entry τ :=
  match r.inflight frame.msgId with
  | some e => if e.total = frame.total then e else Entry.new frame.total now
  | none => Entry.new frame.total now

/-- Takes one frame and returns the message it completes. -/
def Reassembler.push (timeout : τ) (r : Reassembler τ) (frame : Frame) (now : τ) :
    Reassembler τ × Option Bytes :=
  let r := r.prune timeout now
  let e := r.entry frame now
  if e.chunks[frame.seq.toNat]? = some none ∧
      e.bytes + frame.payload.length > maxReliableMessage then
    (r.set frame.msgId none, none)
  else
    let e := e.store frame.seq.toNat frame.payload
    if e.received < e.total.toNat then (r.set frame.msgId (some e), none)
    else (r.set frame.msgId none, some e.data)

/-- Takes what arrives, in order, and returns the messages that are emitted. A
frame that cannot be parsed is dropped. -/
def Reassembler.receive (timeout : τ) : Reassembler τ → List (Bytes × τ) →
    Reassembler τ × List Bytes
  | r, [] => (r, [])
  | r, (buf, now) :: rest =>
    match parseFrame buf with
    | .error _ => r.receive timeout rest
    | .ok frame =>
      let pushed := r.push timeout frame now
      let later := pushed.1.receive timeout rest
      (later.1, pushed.2.toList ++ later.2)

/-- The entry has the first `k` of the message's chunks. -/
structure Entry.Partly (total : UInt32) (chunk : Nat → Bytes) (start : τ) (k : Nat)
    (e : Entry τ) : Prop where
  total_eq : e.total = total
  startedAt_eq : e.startedAt = start
  chunks_eq : e.chunks = (List.range total.toNat).map fun i => if i < k then some (chunk i) else none
  bytes_eq : e.bytes = ((List.range k).flatMap chunk).length

variable {total : UInt32} {chunk : Nat → Bytes} {start : τ} {k : Nat} {e : Entry τ}

omit [Sub τ] [LE τ] [DecidableLE τ]

theorem partly_new (total : UInt32) (chunk : Nat → Bytes) (start : τ) :
    (Entry.new total start).Partly total chunk start 0 where
  total_eq := rfl
  startedAt_eq := rfl
  chunks_eq := by simp [Entry.new]
  bytes_eq := by simp [Entry.new]

theorem countP_range (k n : Nat) (h : k ≤ n) : (List.range n).countP (fun i => i < k) = k := by
  obtain ⟨d, rfl⟩ := Nat.exists_eq_add_of_le h
  rw [List.range_add, List.countP_append]
  have hfirst : (List.range k).countP (fun i => i < k) = k := by
    rw [List.countP_eq_length.2 (by simp), List.length_range]
  have hrest : ((List.range d).map (k + ·)).countP (fun i => i < k) = 0 := by
    rw [List.countP_eq_zero]
    simp
  omega

theorem Entry.Partly.received (h : e.Partly total chunk start k) (hk : k ≤ total.toNat) :
    e.received = k := by
  rw [e.received_eq, h.chunks_eq, List.countP_map]
  have hcount := countP_range k total.toNat hk
  refine Eq.trans (List.countP_congr fun i _ => ?_) hcount
  by_cases hi : i < k <;> simp [hi]

theorem Entry.Partly.missing (h : e.Partly total chunk start k) (hk : k < total.toNat) :
    e.chunks[k]? = some none := by
  rw [h.chunks_eq]
  simp [hk]

theorem set_chunk (chunk : Nat → Bytes) {had has : Nat → Prop} [DecidablePred had]
    [DecidablePred has] {n k : Nat} (hk : k < n) (hmore : ∀ i, has i ↔ had i ∨ i = k) :
    ((List.range n).map fun i => if had i then some (chunk i) else none).set k (some (chunk k)) =
      (List.range n).map fun i => if has i then some (chunk i) else none := by
  apply List.ext_getElem?
  intro i
  rw [List.getElem?_set, List.length_map, List.length_range, List.getElem?_map, List.getElem?_map]
  by_cases hi : i < n
  · rw [List.getElem?_range hi, Option.map_some, Option.map_some]
    by_cases hik : k = i
    · have hhas : has i := (hmore i).2 (.inr hik.symm)
      rw [if_pos hik, if_pos hk, if_pos hhas, hik]
    · have hsame : has i ↔ had i := by simp [hmore i, Ne.symm hik]
      simp only [if_neg hik, hsame]
  · have hik : k ≠ i := by omega
    simp [hi, hik]

theorem Entry.Partly.store (h : e.Partly total chunk start k) (hk : k < total.toNat) :
    (e.store k (chunk k)).Partly total chunk start (k + 1) := by
  unfold Entry.store
  rw [dif_pos (h.missing hk)]
  refine ⟨h.total_eq, h.startedAt_eq, ?_, ?_⟩
  · simp only [h.chunks_eq]
    exact set_chunk chunk hk fun i => Nat.lt_succ_iff_lt_or_eq
  · simp only [h.bytes_eq, List.range_succ, List.flatMap_append, List.length_append,
      List.flatMap_singleton]

theorem Entry.Partly.data (h : e.Partly total chunk start total.toNat) :
    e.data = (List.range total.toNat).flatMap chunk := by
  unfold Entry.data
  rw [h.chunks_eq, List.flatMap_map]
  refine List.flatMap_congr fun i hi => ?_
  simp [List.mem_range.1 hi]

/-- The reassembler has the first `k` chunks of message `id`, and keeps none once
it has them all. -/
def Reassembler.Has (r : Reassembler τ) (id total : UInt32) (chunk : Nat → Bytes) (start : τ)
    (k : Nat) : Prop :=
  match r.inflight id with
  | none => k = 0 ∨ k = total.toNat
  | some e => 0 < k ∧ k < total.toNat ∧ e.Partly total chunk start k

theorem has_zero {r : Reassembler τ} {id : UInt32} (h : r.inflight id = none) (total : UInt32)
    (chunk : Nat → Bytes) (start : τ) : r.Has id total chunk start 0 := by
  unfold Reassembler.Has
  rw [h]
  exact .inl rfl

theorem length_chunks_le (chunk : Nat → Bytes) {k n : Nat} (h : k ≤ n) :
    ((List.range k).flatMap chunk).length ≤ ((List.range n).flatMap chunk).length := by
  obtain ⟨d, rfl⟩ := Nat.exists_eq_add_of_le h
  rw [List.range_add, List.flatMap_append, List.length_append]
  exact Nat.le_add_right _ _

@[simp] theorem inflight_set (r : Reassembler τ) (id id' : UInt32) (e : Option (Entry τ)) :
    (r.set id e).inflight id' = if id' = id then e else r.inflight id' := rfl

variable [Sub τ] [LE τ] [DecidableLE τ] {timeout now : τ}

theorem prune_none {r : Reassembler τ} {id : UInt32} (h : r.inflight id = none) :
    (r.prune timeout now).inflight id = none := by
  simp [Reassembler.prune, h]

theorem entry_partly (timeout : τ) {r : Reassembler τ} {f : Frame}
    (hhas : r.Has f.msgId f.total chunk start k) (hk : k < f.total.toNat)
    (hfirst : k = 0 → start = now) (hlater : 0 < k → now - start ≤ timeout) :
    ((r.prune timeout now).entry f now).Partly f.total chunk start k := by
  unfold Reassembler.Has at hhas
  cases hr : r.inflight f.msgId with
  | none =>
    rw [hr] at hhas
    rcases hhas with rfl | heq
    · unfold Reassembler.entry
      rw [prune_none hr, hfirst rfl]
      exact partly_new f.total chunk now
    · exact absurd hk (heq ▸ Nat.lt_irrefl _)
  | some e =>
    rw [hr] at hhas
    obtain ⟨hpos, -, hpartly⟩ := hhas
    have hkeep : (r.prune timeout now).inflight f.msgId = some e := by
      simp [Reassembler.prune, hr, hpartly.startedAt_eq, hlater hpos]
    unfold Reassembler.entry
    rw [hkeep]
    simp only [hpartly.total_eq, if_true]
    exact hpartly

/-- The next chunk of a message: the last one completes it. -/
theorem push_next (timeout : τ) {r : Reassembler τ} {f : Frame}
    (hhas : r.Has f.msgId f.total chunk start k) (hseq : f.seq.toNat = k) (hpay : f.payload = chunk k)
    (hfirst : k = 0 → start = now) (hlater : 0 < k → now - start ≤ timeout)
    (hsize : ((List.range f.total.toNat).flatMap chunk).length ≤ maxReliableMessage) :
    (r.push timeout f now).1.Has f.msgId f.total chunk start (k + 1) ∧
    (r.push timeout f now).2 = (if k + 1 = f.total.toNat then
      some ((List.range f.total.toNat).flatMap chunk) else none) ∧
    ∀ id, id ≠ f.msgId → r.inflight id = none → (r.push timeout f now).1.inflight id = none := by
  have hk : k < f.total.toNat := hseq ▸ UInt32.lt_iff_toNat_lt.1 f.seq_lt
  have hentry := entry_partly timeout hhas hk hfirst hlater
  set e := (r.prune timeout now).entry f now with he
  have hstored := hentry.store hk
  have hroom : ¬e.bytes + (chunk k).length > maxReliableMessage := by
    have hlen := length_chunks_le chunk (show k + 1 ≤ f.total.toNat from hk)
    have hbytes : e.bytes + (chunk k).length = ((List.range (k + 1)).flatMap chunk).length := by
      rw [hentry.bytes_eq, List.range_succ, List.flatMap_append, List.length_append,
        List.flatMap_singleton]
    omega
  have hreceived := hstored.received hk
  have hpush : r.push timeout f now =
      if k + 1 < f.total.toNat then
        ((r.prune timeout now).set f.msgId (some (e.store k (chunk k))), none)
      else ((r.prune timeout now).set f.msgId none, some (e.store k (chunk k)).data) := by
    unfold Reassembler.push
    simp only [← he, hseq, hpay]
    rw [if_neg fun h => hroom h.2, hreceived, hstored.total_eq]
  by_cases hlast : k + 1 < f.total.toNat
  · rw [if_pos hlast] at hpush
    rw [hpush, if_neg (Nat.ne_of_lt hlast)]
    refine ⟨?_, rfl, fun id hid hnone => ?_⟩
    · unfold Reassembler.Has
      simp only [inflight_set, if_true]
      exact ⟨Nat.succ_pos k, hlast, hstored⟩
    · simp only [inflight_set, if_neg hid, prune_none hnone]
  · have hall : k + 1 = f.total.toNat := by omega
    rw [if_neg hlast] at hpush
    rw [hpush, if_pos hall]
    refine ⟨?_, ?_, fun id hid hnone => ?_⟩
    · unfold Reassembler.Has
      simp only [inflight_set, if_true]
      exact .inr hall
    · rw [hall] at hstored
      rw [hstored.data]
    · simp only [inflight_set, if_neg hid, prune_none hnone]

end Lobbylink.Client.Reassembly
