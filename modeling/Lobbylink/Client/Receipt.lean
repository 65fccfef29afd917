import Mathlib.Algebra.GroupWithZero.Nat
import Lobbylink.Lib.Runs
import Lobbylink.Client.Reassembly

/-! The receiving end against whatever a peer sends: no entry outgrows its limits, no
index is out of range, and a message is made of the first chunks that came. -/
namespace Lobbylink.Client.Receipt
open Lib.Bytes Lib.Runs Framing Reassembly

variable {τ : Type}

structure Sound (e : Entry τ) : Prop where
  bytes_eq : e.bytes = e.data.length
  bytes_le : e.bytes ≤ maxReliableMessage
  total_le : e.total ≤ maxReassemblyChunks

theorem sound_new {total : UInt32} (h : total ≤ maxReassemblyChunks) (now : τ) :
    Sound (Entry.new total now) where
  bytes_eq := by simp [Entry.new, Entry.data]
  bytes_le := Nat.zero_le _
  total_le := h

theorem length_flatMap_set {l : List (Option Bytes)} {i : Nat} (h : l[i]? = some none)
    (payload : Bytes) : ((l.set i (some payload)).flatMap (·.getD [])).length =
      (l.flatMap (·.getD [])).length + payload.length := by
  induction l generalizing i with
  | nil => simp at h
  | cons x rest ih =>
    cases i with
    | zero =>
      obtain rfl : x = none := by simpa using h
      simp [Nat.add_comm]
    | succ i =>
      simp only [List.getElem?_cons_succ] at h
      simp only [List.set_cons_succ, List.flatMap_cons, List.length_append, ih h]
      omega

theorem Sound.store {e : Entry τ} (h : Sound e) {seq : Nat} (hslot : e.chunks[seq]? = some none)
    {payload : Bytes} (hroom : e.bytes + payload.length ≤ maxReliableMessage) :
    Sound (e.store seq payload) := by
  unfold Entry.store
  rw [dif_pos hslot]
  refine ⟨?_, hroom, h.total_le⟩
  unfold Entry.data
  rw [length_flatMap_set hslot, h.bytes_eq]
  rfl

theorem received_le (e : Entry τ) : e.received ≤ e.total.toNat := by
  rw [e.received_eq, ← e.chunks_length]
  exact List.countP_le_length

theorem Sound.received_le (h : Sound e) : e.received ≤ 4096 :=
  Nat.le_trans (Receipt.received_le e) (UInt32.le_iff_toNat_le.1 h.total_le)

theorem Sound.fill {e : Entry τ} (h : Sound e) (hall : ¬e.received < e.total.toNat) :
    fill e.chunks 0 (List.replicate e.bytes 0) = some e.data := by
  have hcount : e.chunks.countP (·.isSome) = e.chunks.length := by
    rw [← e.received_eq, e.chunks_length]
    exact Nat.le_antisymm (Receipt.received_le e) (Nat.not_lt.1 hall)
  rw [fill_all (List.countP_eq_length.1 hcount)]
  · rfl
  · rw [List.length_replicate, h.bytes_eq, Nat.zero_add]
    rfl

/-- What a push ends with, unless the message is too big. -/
def settle (r : Reassembler τ) (id : UInt32) (e : Entry τ) : Reassembler τ × Option Bytes :=
  if e.received < e.total.toNat then (r.set id (some e), none)
  else (r.set id none, some e.data)

variable {r : Reassembler τ} {f : Frame}

theorem entry_total (r : Reassembler τ) (f : Frame) (now : τ) :
    (r.entry f now).total = f.total := by
  unfold Reassembler.entry
  cases r.inflight f.msgId with
  | none => rfl
  | some e =>
    simp only
    split_ifs with htotal
    · exact htotal
    · rfl

theorem slot_missing {e : Entry τ} (h : e.total = f.total) :
    (e.chunks.getD f.seq.toNat none).isNone = true ↔ e.chunks[f.seq.toNat]? = some none := by
  have hlt : f.seq.toNat < e.chunks.length := by
    rw [e.chunks_length, h]
    exact UInt32.lt_iff_toNat_lt.1 f.seq_lt
  rw [List.getD_eq_getElem?_getD, List.getElem?_eq_getElem hlt]
  simp

section Push
variable [LE τ] [DecidableLE τ] [Sub τ]

theorem push_eq (timeout : τ) (r : Reassembler τ) (f : Frame) (now : τ) :
    r.push timeout f now =
      (let e := (r.prune timeout now).entry f now
      if e.chunks[f.seq.toNat]? = some none then
        if e.bytes + f.payload.length > maxReliableMessage then
          ((r.prune timeout now).set f.msgId none, none)
        else settle (r.prune timeout now) f.msgId (e.store f.seq.toNat f.payload)
      else settle (r.prune timeout now) f.msgId e) := by
  unfold Reassembler.push settle
  simp only
  by_cases hslot : ((r.prune timeout now).entry f now).chunks[f.seq.toNat]? = some none
  · simp only [hslot, true_and, if_true]
  · have hsame : ((r.prune timeout now).entry f now).store f.seq.toNat f.payload =
        (r.prune timeout now).entry f now := by
      unfold Entry.store
      rw [dif_neg hslot]
    simp only [hslot, false_and, if_false, hsame]

end Push

/-- `buf[i]` where the index is in range. -/
def beU32Checked (buf : Bytes) (off : Nat) : Option UInt32 :=
  (buf[off]?).bind fun a => (buf[off + 1]?).bind fun b => (buf[off + 2]?).bind fun c =>
    (buf[off + 3]?).map fun d => fromBE a b c d

/-- `parse_frame` with nothing where an index is out of range. -/
def parseChecked (buf : Bytes) : Option (Except String Frame) :=
  if buf.length < frameHeaderLen then some (.error "frame shorter than header")
  else (buf[0]?).bind fun magic =>
    if magic ≠ frameMagic then some (.error "bad frame magic")
    else (buf[1]?).bind fun version =>
      if version ≠ frameVersion then some (.error "unsupported frame version")
      else (beU32Checked buf 2).bind fun msgId => (beU32Checked buf 6).bind fun seq =>
        (beU32Checked buf 10).bind fun total => (beU32Checked buf 14).bind fun payloadLen =>
          if total < 1 ∨ maxReassemblyChunks < total then some (.error "bad frame total")
          else if h : total ≤ seq then some (.error "frame seq out of range")
          else if payloadLen.toNat > maxFramePayload then some (.error "frame payload too large")
          else if payloadLen.toNat ≠ buf.length - frameHeaderLen then
            some (.error "frame payload length mismatch")
          else if frameHeaderLen ≤ buf.length then
            some (.ok ⟨msgId, seq, total, buf.drop frameHeaderLen, UInt32.not_le.1 h⟩)
          else none

/-- The chunks one after the other, unless `expect("all chunks received")` fails. -/
def gather : List (Option Bytes) → Option Bytes
  | [] => some []
  | none :: _ => none
  | some chunk :: rest => (gather rest).map (chunk ++ ·)

theorem getElem?_getD {buf : Bytes} {i : Nat} (h : i < buf.length) :
    buf[i]? = some (buf.getD i 0) := by
  rw [List.getD_eq_getElem?_getD, List.getElem?_eq_getElem h, Option.getD_some]

theorem beU32_checked {buf : Bytes} {off : Nat} (h : off + 4 ≤ buf.length) :
    beU32Checked buf off = some (beU32 buf off) := by
  unfold beU32Checked beU32
  rw [getElem?_getD (by omega), getElem?_getD (by omega), getElem?_getD (by omega),
    getElem?_getD (by omega)]
  rfl

theorem header_le {buf : Bytes} (h : ¬buf.length < frameHeaderLen) : 18 ≤ buf.length :=
  Nat.not_lt.1 h

theorem parse_checked (buf : Bytes) : parseChecked buf = some (parseFrame buf) := by
  unfold parseChecked parseFrame
  by_cases hlen : buf.length < frameHeaderLen
  · rw [if_pos hlen, if_pos hlen]
  · have hheader := header_le hlen
    have hmagic : buf[0]? = some (buf.getD 0 0) := getElem?_getD (by omega)
    have hversion : buf[1]? = some (buf.getD 1 0) := getElem?_getD (by omega)
    have hid : beU32Checked buf 2 = some (beU32 buf 2) := beU32_checked (by omega)
    have hseq : beU32Checked buf 6 = some (beU32 buf 6) := beU32_checked (by omega)
    have htotal : beU32Checked buf 10 = some (beU32 buf 10) := beU32_checked (by omega)
    have hpayload : beU32Checked buf 14 = some (beU32 buf 14) := beU32_checked (by omega)
    rw [if_neg hlen, if_neg hlen, hmagic, Option.bind_some, hversion, Option.bind_some, hid,
      Option.bind_some, hseq, Option.bind_some, htotal, Option.bind_some, hpayload,
      Option.bind_some]
    simp only [if_pos (Nat.not_lt.1 hlen)]
    split_ifs <;> rfl

theorem gather_all {chunks : List (Option Bytes)} (hall : ∀ c ∈ chunks, c.isSome = true) :
    gather chunks = some (chunks.flatMap (·.getD [])) := by
  induction chunks with
  | nil => rfl
  | cons c rest ih =>
    cases c with
    | none => cases hall none List.mem_cons_self
    | some chunk =>
      rw [gather, ih fun c hc => hall c (List.mem_cons_of_mem _ hc)]
      simp

/-- An id that comes with another number of chunks starts over. -/
def restart (r : Reassembler τ) (frame : Frame) : Reassembler τ :=
  match r.inflight frame.msgId with
  | some entry => if entry.total ≠ frame.total then r.set frame.msgId none else r
  | none => r

/-- What `push` does with an entry that is not too big. -/
def finish (r : Reassembler τ) (id : UInt32) (entry : Entry τ) :
    Option (Reassembler τ × Option Bytes) :=
  let r := r.set id (some entry)
  if entry.received < entry.total.toNat then some (r, none)
  else (r.inflight id).bind fun entry =>
    (gather entry.chunks).map fun out => (r.set id none, some out)

theorem set_set (r : Reassembler τ) (id : UInt32) (e e' : Option (Entry τ)) :
    (r.set id e).set id e' = r.set id e' := by
  unfold Reassembler.set
  congr 1
  funext id'
  by_cases h : id' = id
  · simp only [if_pos h]
  · simp only [if_neg h]

theorem restart_set (r : Reassembler τ) (f : Frame) (e : Option (Entry τ)) :
    (restart r f).set f.msgId e = r.set f.msgId e := by
  unfold restart
  cases r.inflight f.msgId with
  | none => rfl
  | some entry =>
    simp only
    split_ifs
    · exact set_set r f.msgId none e
    · rfl

theorem restart_entry (r : Reassembler τ) (f : Frame) (now : τ) :
    ((restart r f).inflight f.msgId).getD (Entry.new f.total now) = r.entry f now := by
  unfold restart Reassembler.entry
  cases hr : r.inflight f.msgId with
  | none => simp only [hr, Option.getD_none]
  | some entry =>
    by_cases htotal : entry.total = f.total
    · simp only [htotal, ne_eq, not_true_eq_false, if_false, hr, Option.getD_some, if_true]
    · simp only [htotal, ne_eq, not_false_eq_true, if_true, inflight_set, Option.getD_none,
        if_false]

theorem gather_entry {e : Entry τ} (hall : ¬e.received < e.total.toNat) :
    gather e.chunks = some e.data := by
  apply gather_all
  rw [← List.countP_eq_length, ← e.received_eq, e.chunks_length]
  exact Nat.le_antisymm (received_le e) (Nat.not_lt.1 hall)

theorem finish_settle (r : Reassembler τ) (id : UInt32) (e : Entry τ) :
    finish r id e = some (settle r id e) := by
  unfold finish settle
  simp only
  by_cases hmore : e.received < e.total.toNat
  · rw [if_pos hmore, if_pos hmore]
  · rw [if_neg hmore, if_neg hmore, inflight_set, if_pos rfl, Option.bind_some,
      gather_entry hmore, set_set]
    rfl

theorem finish_restart (r : Reassembler τ) (f : Frame) (e : Entry τ) :
    finish (restart r f) f.msgId e = some (settle r f.msgId e) := by
  rw [finish_settle]
  unfold settle
  rw [restart_set, restart_set]

section Push
variable [LE τ] [DecidableLE τ] [Sub τ]

/-- `push` as it is written, with nothing where an index is out of range or an
`expect` fails. -/
def pushChecked (timeout : τ) (r : Reassembler τ) (frame : Frame) (now : τ) :
    Option (Reassembler τ × Option Bytes) :=
  let r := restart (r.prune timeout now) frame
  let entry := (r.inflight frame.msgId).getD (Entry.new frame.total now)
  (entry.chunks[frame.seq.toNat]?).bind fun slot =>
    let entry := if slot.isNone then entry.store frame.seq.toNat frame.payload else entry
    if slot.isNone ∧ entry.bytes > maxReliableMessage then some (r.set frame.msgId none, none)
    else finish r frame.msgId entry

/-- No index is out of range and no `expect` fails. -/
theorem push_checked (timeout : τ) (r : Reassembler τ) (f : Frame) (now : τ) :
    pushChecked timeout r f now = some (r.push timeout f now) := by
  have htotal := entry_total (r.prune timeout now) f now
  unfold pushChecked
  simp only [restart_entry, restart_set, finish_restart]
  rw [push_eq]
  generalize (r.prune timeout now).entry f now = e at htotal ⊢
  have hseq : f.seq.toNat < e.chunks.length := by
    rw [e.chunks_length, htotal]
    exact UInt32.lt_iff_toNat_lt.1 f.seq_lt
  obtain ⟨slot, hslot⟩ : ∃ slot, e.chunks[f.seq.toNat]? = some slot :=
    ⟨_, List.getElem?_eq_getElem hseq⟩
  rw [hslot, Option.bind_some]
  cases slot with
  | some chunk =>
    have hfilled : ¬e.chunks[f.seq.toNat]? = some none := by simp [hslot]
    simp only [Option.isNone_some, Bool.false_eq_true, false_and, if_false, if_neg hfilled]
  | none =>
    have hbytes : (e.store f.seq.toNat f.payload).bytes = e.bytes + f.payload.length := by
      unfold Entry.store
      rw [dif_pos hslot]
    simp only [Option.isNone_none, true_and, if_true, hbytes]
    split_ifs <;> rfl

end Push

variable [LE τ] [DecidableLE τ] [Sub τ]

def firstPayload (log : List Frame) (seq : Nat) : Option Bytes :=
  (log.find? fun f => f.seq.toNat == seq).map (·.payload)

def creates (timeout : τ) (r : Reassembler τ) (frame : Frame) (now : τ) : Bool :=
  match (r.prune timeout now).inflight frame.msgId with
  | some entry => entry.total != frame.total
  | none => true

/-- A receiver with the frames that each message has had since its entry was created. -/
structure Receiver (τ : Type) where
  reassembler : Reassembler τ
  since : UInt32 → List Frame

def Receiver.record (timeout : τ) (s : Receiver τ) (frame : Frame) (now : τ) :
    UInt32 → List Frame := fun id =>
  if id = frame.msgId then
    if creates timeout s.reassembler frame now then [frame] else s.since id ++ [frame]
  else s.since id

/-- Takes what arrives and returns the message that is emitted. -/
def Receiver.feed (timeout : τ) (s : Receiver τ) (arrival : Bytes × τ) :
    Option (Receiver τ × Option Bytes) :=
  (parseChecked arrival.1).bind fun parsed =>
    match parsed with
    | .error _ => some (s, none)
    | .ok frame => (pushChecked timeout s.reassembler frame arrival.2).map fun pushed =>
      (⟨pushed.1, s.record timeout frame arrival.2⟩, pushed.2)

def receiving (timeout : τ) : System (Receiver τ) (Bytes × τ) where
  init := fun s => s = ⟨.empty, fun _ => []⟩
  step := fun s arrival t => ∃ out, s.feed timeout arrival = some (t, out)

/-- The limits of an entry at the time of a push. -/
structure Bounded (timeout now : τ) (e : Entry τ) : Prop where
  total_pos : 1 ≤ e.total.toNat
  total_le : e.total ≤ maxReassemblyChunks
  chunks_length : e.chunks.length = e.total.toNat
  received_eq : e.received = e.chunks.countP (·.isSome)
  received_lt : e.received < e.total.toNat
  bytes_eq : e.bytes = ((e.chunks.filterMap id).map List.length).sum
  bytes_le : e.bytes ≤ maxReliableMessage
  recent : now - e.startedAt ≤ timeout

/-- The chunks of an entry are the first that came. -/
structure Kept (log : List Frame) (e : Entry τ) : Prop extends Sound e where
  first : ∀ seq < e.total.toNat, e.chunks[seq]? = some (firstPayload log seq)

theorem firstPayload_snoc (log : List Frame) (f : Frame) (seq : Nat) :
    firstPayload (log ++ [f]) seq =
      (firstPayload log seq).or (if f.seq.toNat = seq then some f.payload else none) := by
  unfold firstPayload
  rw [List.find?_append]
  cases log.find? fun f => f.seq.toNat == seq with
  | some g => rfl
  | none =>
    by_cases hseq : f.seq.toNat = seq
    · simp [hseq]
    · simp [hseq]

section Entries
omit [LE τ] [DecidableLE τ] [Sub τ]

theorem kept_new {total : UInt32} (h : total ≤ maxReassemblyChunks) (now : τ) :
    Kept [] (Entry.new total now) where
  toSound := sound_new h now
  first := by
    intro seq hseq
    simp only [Entry.new] at hseq ⊢
    rw [List.getElem?_replicate_of_lt hseq]
    rfl

theorem Kept.store {log : List Frame} {e : Entry τ} (h : Kept log e) (htotal : e.total = f.total)
    (hroom : e.chunks[f.seq.toNat]? = some none →
      e.bytes + f.payload.length ≤ maxReliableMessage) :
    Kept (log ++ [f]) (e.store f.seq.toNat f.payload) := by
  have hseq : f.seq.toNat < e.total.toNat := by
    rw [htotal]
    exact UInt32.lt_iff_toNat_lt.1 f.seq_lt
  have hcame := h.first f.seq.toNat hseq
  by_cases hslot : e.chunks[f.seq.toNat]? = some none
  · refine ⟨h.toSound.store hslot (hroom hslot), fun seq hlt => ?_⟩
    have hnone : firstPayload log f.seq.toNat = none := Option.some.inj (hcame.symm.trans hslot)
    unfold Entry.store at hlt ⊢
    rw [dif_pos hslot] at hlt ⊢
    rw [firstPayload_snoc, List.getElem?_set]
    by_cases hsame : f.seq.toNat = seq
    · rw [if_pos hsame, if_pos (by rw [e.chunks_length]; exact hseq), ← hsame, hnone, if_pos rfl]
      rfl
    · rw [if_neg hsame, if_neg hsame, Option.or_none]
      exact h.first seq hlt
  · have hstore : e.store f.seq.toNat f.payload = e := by
      unfold Entry.store
      rw [dif_neg hslot]
    rw [hstore]
    refine ⟨h.toSound, fun seq hlt => ?_⟩
    rw [h.first seq hlt, firstPayload_snoc]
    by_cases hsame : f.seq.toNat = seq
    · obtain ⟨payload, hpayload⟩ : ∃ payload, firstPayload log seq = some payload := by
        rw [← Option.ne_none_iff_exists']
        intro hnone
        rw [← hsame] at hnone
        exact hslot (hcame.trans (congrArg some hnone))
      rw [hpayload]
      rfl
    · rw [if_neg hsame, Option.or_none]

end Entries

theorem creates_eq (timeout : τ) (r : Reassembler τ) (f : Frame) (now : τ) :
    (creates timeout r f now = true ∧
      (r.prune timeout now).entry f now = Entry.new f.total now) ∨
    creates timeout r f now = false ∧ ∃ e, r.inflight f.msgId = some e ∧
      now - e.startedAt ≤ timeout ∧ (r.prune timeout now).entry f now = e := by
  unfold creates Reassembler.entry
  cases hr : (r.prune timeout now).inflight f.msgId with
  | none => exact .inl ⟨rfl, rfl⟩
  | some e =>
    obtain ⟨hkept, hrecent⟩ := Option.filter_eq_some_iff.1 hr
    by_cases htotal : e.total = f.total
    · exact .inr ⟨by simp [htotal], e, hkept, by simpa using hrecent, by simp [htotal]⟩
    · exact .inl ⟨by simp [htotal], by simp [htotal]⟩

theorem push_does (timeout : τ) (r : Reassembler τ) (f : Frame) (now : τ) :
    r.push timeout f now = ((r.prune timeout now).set f.msgId none, none) ∨
    (((r.prune timeout now).entry f now).chunks[f.seq.toNat]? = some none →
      ((r.prune timeout now).entry f now).bytes + f.payload.length ≤ maxReliableMessage) ∧
    r.push timeout f now = settle (r.prune timeout now) f.msgId
      (((r.prune timeout now).entry f now).store f.seq.toNat f.payload) := by
  unfold Reassembler.push settle
  simp only
  by_cases hbig : ((r.prune timeout now).entry f now).chunks[f.seq.toNat]? = some none ∧
      ((r.prune timeout now).entry f now).bytes + f.payload.length > maxReliableMessage
  · rw [if_pos hbig]
    exact .inl rfl
  · rw [if_neg hbig]
    exact .inr ⟨fun hslot => Nat.not_lt.1 fun h => hbig ⟨hslot, h⟩, rfl⟩

structure Receiver.Ok (s : Receiver τ) : Prop where
  kept : ∀ id e, s.reassembler.inflight id = some e → Kept (s.since id) e
  received_lt : ∀ id e, s.reassembler.inflight id = some e → e.received < e.total.toNat

section Entries
omit [LE τ] [DecidableLE τ] [Sub τ]

@[simp] theorem store_total (e : Entry τ) (seq : Nat) (payload : Bytes) :
    (e.store seq payload).total = e.total := by
  unfold Entry.store
  split_ifs <;> rfl

@[simp] theorem store_startedAt (e : Entry τ) (seq : Nat) (payload : Bytes) :
    (e.store seq payload).startedAt = e.startedAt := by
  unfold Entry.store
  split_ifs <;> rfl

theorem sum_filled (chunks : List (Option Bytes)) :
    ((chunks.filterMap id).map List.length).sum = (chunks.flatMap (·.getD [])).length := by
  induction chunks with
  | nil => rfl
  | cons c rest ih =>
    cases c with
    | none => simpa using ih
    | some chunk =>
      have hcons : (some chunk :: rest).filterMap id = chunk :: rest.filterMap id := rfl
      rw [hcons, List.map_cons, List.sum_cons, ih, List.flatMap_cons, List.length_append]
      rfl

theorem settle_inflight {id : UInt32} {e x : Entry τ} {id' : UInt32}
    (h : (settle r id e).1.inflight id' = some x) :
    (id' = id ∧ x = e ∧ e.received < e.total.toNat) ∨ id' ≠ id ∧ r.inflight id' = some x := by
  unfold settle at h
  split_ifs at h with hmore
  · rw [inflight_set] at h
    split_ifs at h with hid
    · exact .inl ⟨hid, (Option.some.inj h).symm, hmore⟩
    · exact .inr ⟨hid, h⟩
  · rw [inflight_set] at h
    split_ifs at h with hid
    exact .inr ⟨hid, h⟩

theorem settle_message {id : UInt32} {e : Entry τ} {message : Bytes}
    (h : (settle r id e).2 = some message) :
    ¬e.received < e.total.toNat ∧ message = e.data := by
  unfold settle at h
  split_ifs at h with hmore
  exact ⟨hmore, (Option.some.inj h).symm⟩

/-- The chunks of a whole message are those that came first. -/
theorem Kept.message {log : List Frame} {e : Entry τ} (h : Kept log e)
    (hall : ¬e.received < e.total.toNat) :
    (∀ seq < e.total.toNat, ∃ payload, firstPayload log seq = some payload) ∧
      e.data = (List.range e.total.toNat).flatMap fun seq => (firstPayload log seq).getD [] := by
  have hchunks : e.chunks = (List.range e.total.toNat).map (firstPayload log) := by
    apply List.ext_getElem?
    intro seq
    by_cases hseq : seq < e.total.toNat
    · rw [h.first seq hseq, List.getElem?_map, List.getElem?_range hseq]
      rfl
    · rw [List.getElem?_eq_none (by rw [e.chunks_length]; omega),
        List.getElem?_eq_none (by simp; omega)]
  have hcount : e.chunks.countP (·.isSome) = e.chunks.length := by
    rw [← e.received_eq, e.chunks_length]
    exact Nat.le_antisymm (received_le e) (Nat.not_lt.1 hall)
  refine ⟨fun seq hseq => ?_, ?_⟩
  · have hmem : firstPayload log seq ∈ e.chunks := by
      rw [hchunks]
      exact List.mem_map_of_mem (List.mem_range.2 hseq)
    exact Option.isSome_iff_exists.1 (List.countP_eq_length.1 hcount _ hmem)
  · unfold Entry.data
    rw [hchunks, List.flatMap_map]

end Entries

variable {timeout now : τ} {s : Receiver τ}

theorem Receiver.Ok.stored (h : s.Ok) (hf : f.Fits) (hroom :
      ((s.reassembler.prune timeout now).entry f now).chunks[f.seq.toNat]? = some none →
      ((s.reassembler.prune timeout now).entry f now).bytes + f.payload.length ≤
        maxReliableMessage) :
    Kept (s.record timeout f now f.msgId)
      (((s.reassembler.prune timeout now).entry f now).store f.seq.toNat f.payload) := by
  have htotal := entry_total (s.reassembler.prune timeout now) f now
  unfold Receiver.record
  rw [if_pos rfl]
  rcases creates_eq timeout s.reassembler f now with ⟨hnew, heq⟩ | ⟨hold, e, he, -, heq⟩
  · rw [if_pos hnew]
    rw [heq] at hroom htotal ⊢
    exact (kept_new hf.1 now).store htotal hroom
  · rw [if_neg (by simp [hold])]
    rw [heq] at hroom htotal ⊢
    exact (h.kept f.msgId e he).store htotal hroom

theorem Receiver.Ok.push (h : s.Ok) (hself : ∀ t : τ, t - t ≤ timeout) (hf : f.Fits)
    {id : UInt32} {e : Entry τ}
    (he : (s.reassembler.push timeout f now).1.inflight id = some e) :
    Kept (s.record timeout f now id) e ∧ e.received < e.total.toNat ∧
      now - e.startedAt ≤ timeout := by
  have hother : id ≠ f.msgId → (s.reassembler.prune timeout now).inflight id = some e →
      Kept (s.record timeout f now id) e ∧ e.received < e.total.toNat ∧
        now - e.startedAt ≤ timeout := by
    intro hid hpruned
    obtain ⟨hkept, hrecent⟩ := Option.filter_eq_some_iff.1 hpruned
    unfold Receiver.record
    rw [if_neg hid]
    exact ⟨h.kept id e hkept, h.received_lt id e hkept, by simpa using hrecent⟩
  rcases push_does timeout s.reassembler f now with hdrop | ⟨hroom, hsettle⟩
  · rw [hdrop, inflight_set] at he
    split_ifs at he with hid
    exact hother hid he
  · rw [hsettle] at he
    rcases settle_inflight he with ⟨rfl, rfl, hmore⟩ | ⟨hid, hpruned⟩
    · refine ⟨h.stored hf hroom, hmore, ?_⟩
      rw [store_startedAt]
      rcases creates_eq timeout s.reassembler f now with ⟨-, heq⟩ | ⟨-, e, -, hrecent, heq⟩
      · rw [heq]
        exact hself now
      · rw [heq]
        exact hrecent
    · exact hother hid hpruned

theorem Receiver.Ok.message (h : s.Ok) (hf : f.Fits) {message : Bytes}
    (hout : (s.reassembler.push timeout f now).2 = some message) :
    (∀ seq < f.total.toNat, ∃ payload,
      firstPayload (s.record timeout f now f.msgId) seq = some payload) ∧
    message = (List.range f.total.toNat).flatMap (fun seq =>
      (firstPayload (s.record timeout f now f.msgId) seq).getD []) ∧
    message.length ≤ maxReliableMessage := by
  have htotal := entry_total (s.reassembler.prune timeout now) f now
  rcases push_does timeout s.reassembler f now with hdrop | ⟨hroom, hsettle⟩
  · rw [hdrop] at hout
    cases hout
  · rw [hsettle] at hout
    obtain ⟨hall, rfl⟩ := settle_message hout
    have hstored := h.stored hf hroom
    obtain ⟨hcame, hdata⟩ := hstored.message hall
    rw [store_total, htotal] at hcame hdata
    refine ⟨hcame, hdata, ?_⟩
    rw [← hstored.bytes_eq]
    exact hstored.bytes_le

theorem feed_error {buf : Bytes} {reason : String} (h : parseFrame buf = .error reason) :
    s.feed timeout (buf, now) = some (s, none) := by
  unfold Receiver.feed
  simp only [parse_checked, h, Option.bind_some]

theorem feed_ok {buf : Bytes} (h : parseFrame buf = .ok f) :
    s.feed timeout (buf, now) = some (⟨(s.reassembler.push timeout f now).1,
      s.record timeout f now⟩, (s.reassembler.push timeout f now).2) := by
  unfold Receiver.feed
  simp only [parse_checked, h, Option.bind_some, push_checked, Option.map_some]

theorem run_ok (hself : ∀ t : τ, t - t ≤ timeout) {arrivals : List (Bytes × τ)}
    (run : Run (receiving timeout) arrivals s) : s.Ok := by
  apply run.invariant Receiver.Ok
  · rintro _ rfl
    constructor
    · intro id e he
      cases he
    · intro id e he
      cases he
  · rintro s ⟨buf, now⟩ t hok ⟨out, hfeed⟩
    cases hparse : parseFrame buf with
    | error reason =>
      rw [feed_error hparse] at hfeed
      cases hfeed
      exact hok
    | ok f =>
      rw [feed_ok hparse] at hfeed
      cases hfeed
      constructor
      · intro id e he
        exact (hok.push hself (parse_ok hparse).1 he).1
      · intro id e he
        exact (hok.push hself (parse_ok hparse).1 he).2.1

/-- Nothing that arrives makes the receiver fail, its entries keep to their limits, and
each message is what came first for each of its chunks. The readings of the clock are finite:
the age of an entry at the reading that made it is not over the timeout. -/
theorem receipt_safe (timeout : τ) (hself : ∀ t : τ, t - t ≤ timeout)
    {arrivals : List (Bytes × τ)} {s : Receiver τ} (run : Run (receiving timeout) arrivals s)
    (buf : Bytes) (now : τ) :
    ∃ t out, s.feed timeout (buf, now) = some (t, out) ∧
      (∀ f, parseFrame buf = .ok f →
        ∀ id e, t.reassembler.inflight id = some e → Bounded timeout now e) ∧
      ∀ message, out = some message → ∃ f, parseFrame buf = .ok f ∧
        (∀ seq < f.total.toNat, ∃ payload, firstPayload (t.since f.msgId) seq = some payload) ∧
        message = (List.range f.total.toNat).flatMap (fun seq =>
          (firstPayload (t.since f.msgId) seq).getD []) ∧
        message.length ≤ maxReliableMessage := by
  have hok := run_ok hself run
  cases hparse : parseFrame buf with
  | error reason =>
    refine ⟨s, none, feed_error hparse, fun f hf => ?_, fun message hout => ?_⟩
    · cases hf
    · cases hout
  | ok f =>
    have hfits := (parse_ok hparse).1
    refine ⟨_, _, feed_ok hparse, fun f' _ id e he => ?_, fun message hout => ?_⟩
    · obtain ⟨hkept, hmore, hrecent⟩ := hok.push hself hfits he
      refine ⟨Nat.lt_of_le_of_lt (Nat.zero_le _) hmore, hkept.total_le, e.chunks_length,
        e.received_eq, hmore, ?_, hkept.bytes_le, hrecent⟩
      rw [hkept.bytes_eq, sum_filled]
      rfl
    · exact ⟨f, rfl, hok.message hfits hout⟩

def shuffled : List (Bytes × Int) :=
  [(makeFrame 5 2 3 [99], 0), (makeFrame 5 0 3 [97], 1), (makeFrame 5 0 3 [88], 2)]

def next (s : Receiver Int) (arrival : Bytes × Int) : Option (Receiver Int) :=
  (s.feed 30000 arrival).map Prod.fst

theorem receipt_safe_shuffled : ∃ (s t : Receiver Int),
    Run (receiving 30000) shuffled s ∧
    s.feed 30000 (makeFrame 5 1 3 [98], 3) = some (t, some [97, 98, 99]) ∧
    [97, 98, 99] = (List.range 3).flatMap fun seq => (firstPayload (t.since 5) seq).getD [] := by
  have hstep : ∀ s arrival t, next s arrival = some t →
      (receiving (30000 : Int)).step s arrival t := by
    intro s arrival t h
    obtain ⟨⟨_, out⟩, hfeed, rfl⟩ := Option.map_eq_some_iff.1 h
    exact ⟨out, hfeed⟩
  obtain ⟨s, hs⟩ : ∃ s, follow next shuffled ⟨.empty, fun _ => []⟩ = some s :=
    Option.isSome_iff_exists.1 (by decide +kernel)
  have run : Run (receiving (30000 : Int)) shuffled s := (Run.init rfl).follow hstep hs
  obtain ⟨t, out, hfeed, -, hmessage⟩ := receipt_safe 30000 (by simp) run (makeFrame 5 1 3 [98]) 3
  have hout : ((follow next shuffled ⟨.empty, fun _ => []⟩).bind fun s =>
      (s.feed 30000 (makeFrame 5 1 3 [98], 3)).map Prod.snd) = some (some [97, 98, 99]) := by
    decide +kernel
  rw [hs, Option.bind_some, hfeed] at hout
  obtain rfl := Option.some.inj hout
  obtain ⟨f, hparse, -, hchunks, -⟩ := hmessage _ rfl
  have hf : parseFrame (makeFrame 5 1 3 [98]) = .ok ⟨5, 1, 3, [98], by decide⟩ := by
    decide +kernel
  cases hf.symm.trans hparse
  exact ⟨s, t, run, hfeed, hchunks⟩

end Lobbylink.Client.Receipt
