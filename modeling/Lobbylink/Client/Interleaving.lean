import Lobbylink.Client.Delivery
import Mathlib.Data.List.Flatten

/-! Frames of many messages in any order. What the pushes of a message return
depends on its own frames only, and it comes out once, with its last missing frame. -/
namespace Lobbylink.Client.Interleaving
open Lib.Bytes Framing Reassembly Sender Delivery

variable {τ : Type}

/-- The entry has the chunks of the message that `got` says. -/
structure Holds (total : UInt32) (chunk : Nat → Bytes) (start : τ) (got : Nat → Bool)
    (e : Entry τ) : Prop where
  total_eq : e.total = total
  startedAt_eq : e.startedAt = start
  chunks_eq : e.chunks = (List.range total.toNat).map fun i => if got i then some (chunk i) else none
  bytes_eq : e.bytes = (((List.range total.toNat).filter got).flatMap chunk).length

variable {total : UInt32} {chunk : Nat → Bytes} {start : τ} {got : Nat → Bool} {e : Entry τ}
  {k : Nat}

theorem holds_new (total : UInt32) (chunk : Nat → Bytes) (start : τ) :
    Holds total chunk start (fun _ => false) (Entry.new total start) where
  total_eq := rfl
  startedAt_eq := rfl
  chunks_eq := by simp [Entry.new]
  bytes_eq := by simp [Entry.new]

theorem Holds.slot (h : Holds total chunk start got e) (hk : k < total.toNat) :
    e.chunks[k]? = some (if got k then some (chunk k) else none) := by
  rw [h.chunks_eq, List.getElem?_map, List.getElem?_range hk, Option.map_some]

theorem Holds.missing (h : Holds total chunk start got e) (hk : k < total.toNat) :
    e.chunks[k]? = some none ↔ got k = false := by
  rw [h.slot hk]
  cases got k <;> simp

theorem Holds.received (h : Holds total chunk start got e) :
    e.received = (List.range total.toNat).countP got := by
  rw [e.received_eq, h.chunks_eq, List.countP_map]
  refine List.countP_congr fun i _ => ?_
  cases hgot : got i <;> simp [hgot]

theorem length_filter_insert (chunk : Nat → Bytes) {n : Nat} (hk : k < n) (hgot : got k = false) :
    (((List.range n).filter fun i => got i || i == k).flatMap chunk).length =
      (((List.range n).filter got).flatMap chunk).length + (chunk k).length := by
  induction n with
  | zero => omega
  | succ n ih =>
    rw [List.range_succ, List.filter_append, List.filter_append, List.flatMap_append,
      List.flatMap_append, List.length_append, List.length_append]
    by_cases hlast : k = n
    · subst hlast
      have hsame : (List.range k).filter (fun i => got i || i == k) = (List.range k).filter got :=
        List.filter_congr fun i hi => by
          have hlt := List.mem_range.1 hi
          simp [Nat.ne_of_lt hlt]
      rw [hsame]
      simp [hgot]
    · have hne : (n == k) = false := by simpa using Ne.symm hlast
      rw [ih (by omega)]
      cases hn : got n with
      | false => simp [hn, hne]
      | true =>
        simp only [hn, hne, Bool.or_false, List.filter_cons_of_pos, List.filter_nil,
          List.flatMap_singleton]
        omega

theorem Holds.store (h : Holds total chunk start got e) (hk : k < total.toNat) :
    Holds total chunk start (fun i => got i || i == k) (e.store k (chunk k)) := by
  cases hgot : got k with
  | true =>
    have hsame : (fun i => got i || i == k) = got := by
      funext i
      by_cases hi : i = k <;> simp [hi, hgot]
    unfold Entry.store
    rw [dif_neg (by rw [h.missing hk, hgot]; decide), hsame]
    exact h
  | false =>
    unfold Entry.store
    rw [dif_pos ((h.missing hk).2 hgot)]
    refine ⟨h.total_eq, h.startedAt_eq, ?_, ?_⟩
    · simp only [h.chunks_eq]
      exact set_chunk chunk hk fun i => by simp
    · rw [length_filter_insert chunk hk hgot, ← h.bytes_eq]

theorem Holds.data (h : Holds total chunk start got e) (hall : ∀ i < total.toNat, got i = true) :
    e.data = (List.range total.toNat).flatMap chunk := by
  unfold Entry.data
  rw [h.chunks_eq, List.flatMap_map]
  refine List.flatMap_congr fun i hi => ?_
  simp [hall i (List.mem_range.1 hi)]

theorem Holds.bytes_le (h : Holds total chunk start got e) :
    e.bytes ≤ ((List.range total.toNat).flatMap chunk).length := by
  rw [h.bytes_eq]
  exact (List.filter_sublist.flatMap chunk).length_le

/-- The frame is one that the sender makes of message `id`. -/
def Sends (id : UInt32) (data : Bytes) (f : Frame) : Prop :=
  ∃ seq < (chunkCount data.length).toNat,
    parseFrame (chunkFrame id (chunkCount data.length) data seq) = .ok f

theorem cut_message {data : Bytes} (hsize : data.length ≤ maxReliableMessage) :
    Cut (chunkCount data.length) data := by
  obtain ⟨-, hcount, hcovers⟩ := chunkCount_spec hsize
  exact ⟨UInt32.le_iff_toNat_le.2 hcount, hcovers, hsize⟩

theorem sends_fits {data : Bytes} {f : Frame} {seq : Nat} (hsize : data.length ≤ maxReliableMessage)
    (htotal : f.total = chunkCount data.length) (hpay : f.payload = piece chunkPayload data seq) :
    f.Fits := by
  refine ⟨htotal ▸ (cut_message hsize).count, ?_⟩
  rw [hpay]
  refine Nat.le_trans (length_piece_le chunkPayload data seq) ?_
  unfold chunkPayload maxFramePayload
  omega

theorem Sends.spec {id : UInt32} {data : Bytes} {f : Frame} (h : Sends id data f)
    (hsize : data.length ≤ maxReliableMessage) :
    f.msgId = id ∧ f.total = chunkCount data.length ∧
      f.payload = piece chunkPayload data f.seq.toNat := by
  obtain ⟨seq, hseq, hparse⟩ := h
  obtain ⟨g, hid, htotal, hword, hpay, hbytes⟩ := exists_frame id data hseq
  rw [hbytes, parse_bytes g (sends_fits hsize htotal hpay)] at hparse
  cases hparse
  exact ⟨hid, htotal, by rw [hword, hpay]⟩

theorem sends_chunk (id : UInt32) {data : Bytes} (hsize : data.length ≤ maxReliableMessage)
    (seq : UInt32) (hlt : seq < chunkCount data.length) :
    Sends id data ⟨id, seq, chunkCount data.length, piece chunkPayload data seq.toNat, hlt⟩ := by
  have hseq := UInt32.lt_iff_toNat_lt.1 hlt
  obtain ⟨f, hid, htotal, hword, hpay, hbytes⟩ := exists_frame id data hseq
  have hparse : parseFrame f.bytes = .ok f := parse_bytes f (sends_fits hsize htotal hpay)
  rw [← hbytes] at hparse
  refine ⟨seq.toNat, hseq, hparse.trans (congrArg Except.ok ?_)⟩
  cases f
  cases UInt32.toNat_inj.1 hword
  simp only [Frame.mk.injEq]
  exact ⟨hid, trivial, htotal, hpay⟩

/-- What clock readings satisfy: later ones are no nearer to the start of a message. -/
structure Clock (τ : Type) [Sub τ] [LE τ] : Prop where
  le_trans : ∀ a b c : τ, a ≤ b → b ≤ c → a ≤ c
  sub_le_sub : ∀ a b c : τ, a ≤ b → a - c ≤ b - c

variable [Sub τ] [LE τ] [DecidableLE τ]

def outputs (timeout : τ) : Reassembler τ → List (Frame × τ) → List (Frame × Option Bytes)
  | _, [] => []
  | r, (frame, now) :: rest =>
    let pushed := r.push timeout frame now
    (frame, pushed.2) :: outputs timeout pushed.1 rest

def own (id : UInt32) (arrivals : List (Frame × τ)) : List (Frame × τ) :=
  arrivals.filter fun a => a.1.msgId = id

variable {timeout now later : τ} {r r' : Reassembler τ} {id : UInt32}

/-- Pruning twice is pruning at the later time. -/
theorem prune_later (hclock : Clock τ) (h : now ≤ later)
    (hr : r'.inflight id = (r.prune timeout now).inflight id) :
    (r'.prune timeout later).inflight id = (r.prune timeout later).inflight id := by
  simp only [Reassembler.prune] at hr ⊢
  rw [hr, Option.filter_filter]
  congr 1
  funext e
  have hstay : later - e.startedAt ≤ timeout → now - e.startedAt ≤ timeout :=
    hclock.le_trans _ _ _ (hclock.sub_le_sub _ _ _ h)
  by_cases hlate : later - e.startedAt ≤ timeout
  · simp [hlate, hstay hlate]
  · simp [hlate]

theorem push_foreign {f : Frame} (h : id ≠ f.msgId) :
    (r.push timeout f now).1.inflight id = (r.prune timeout now).inflight id := by
  unfold Reassembler.push
  dsimp only
  split_ifs <;> simp only [inflight_set, if_neg h]

/-- A push looks at the entry of its own message only. -/
theorem push_congr {f : Frame} (h : (r.prune timeout now).inflight f.msgId =
      (r'.prune timeout now).inflight f.msgId) :
    (r.push timeout f now).2 = (r'.push timeout f now).2 ∧
      (r.push timeout f now).1.inflight f.msgId = (r'.push timeout f now).1.inflight f.msgId := by
  have hentry : (r.prune timeout now).entry f now = (r'.prune timeout now).entry f now := by
    unfold Reassembler.entry
    rw [h]
  unfold Reassembler.push
  dsimp only
  rw [hentry]
  split_ifs <;> simp only [inflight_set, if_true, and_self]

theorem outputs_own (hclock : Clock τ) (arrivals : List (Frame × τ)) (r r' : Reassembler τ)
    (hmono : arrivals.Pairwise fun a b => a.2 ≤ b.2)
    (hsame : ∀ a ∈ arrivals,
      (r.prune timeout a.2).inflight id = (r'.prune timeout a.2).inflight id) :
    (outputs timeout r arrivals).filter (fun o => o.1.msgId = id) =
      outputs timeout r' (own id arrivals) := by
  induction arrivals generalizing r r' with
  | nil => rfl
  | cons a rest ih =>
    obtain ⟨f, now⟩ := a
    obtain ⟨hlater, hrest⟩ := List.pairwise_cons.1 hmono
    by_cases hid : f.msgId = id
    · subst hid
      obtain ⟨hout, hnext⟩ := push_congr (hsame (f, now) List.mem_cons_self)
      have hih := ih (r.push timeout f now).1 (r'.push timeout f now).1 hrest
        fun a _ => by simp only [Reassembler.prune, hnext]
      unfold own at hih ⊢
      rw [List.filter_cons_of_pos (by simp), outputs, outputs, List.filter_cons_of_pos (by simp),
        hih, hout]
    · have hih := ih (r.push timeout f now).1 r' hrest fun a ha => by
        rw [prune_later hclock (hlater a ha) (push_foreign (Ne.symm hid))]
        exact hsame a (List.mem_cons_of_mem _ ha)
      unfold own at hih ⊢
      rw [List.filter_cons_of_neg (by simpa using hid), outputs,
        List.filter_cons_of_neg (by simpa using hid), hih]

/-- A chunk of a message of a permitted length is stored, and the message returned
if that was the last one. -/
theorem push_chunk {f : Frame}
    (hentry : Holds f.total chunk start got ((r.prune timeout now).entry f now))
    (hpay : f.payload = chunk f.seq.toNat)
    (hsize : ((List.range f.total.toNat).flatMap chunk).length ≤ maxReliableMessage) :
    ∃ e, Holds f.total chunk start (fun i => got i || i == f.seq.toNat) e ∧
      r.push timeout f now = if e.received < f.total.toNat then
          ((r.prune timeout now).set f.msgId (some e), none)
        else ((r.prune timeout now).set f.msgId none, some e.data) := by
  have hk : f.seq.toNat < f.total.toNat := UInt32.lt_iff_toNat_lt.1 f.seq_lt
  set e := (r.prune timeout now).entry f now with he
  have hstored := hentry.store hk
  refine ⟨e.store f.seq.toNat (chunk f.seq.toNat), hstored, ?_⟩
  have hroom : ¬(e.chunks[f.seq.toNat]? = some none ∧
      e.bytes + (chunk f.seq.toNat).length > maxReliableMessage) := by
    rintro ⟨hnone, hbig⟩
    have hle := hstored.bytes_le
    rw [Entry.store, dif_pos hnone] at hle
    simp only at hle
    omega
  unfold Reassembler.push
  simp only [← he, hpay]
  rw [if_neg hroom, hstored.total_eq]

theorem push_partial {f : Frame} {missing : Nat}
    (hentry : Holds f.total chunk start got ((r.prune timeout now).entry f now))
    (hpay : f.payload = chunk f.seq.toNat)
    (hsize : ((List.range f.total.toNat).flatMap chunk).length ≤ maxReliableMessage)
    (hlt : missing < f.total.toNat) (hgot : got missing = false) (hne : f.seq.toNat ≠ missing) :
    (r.push timeout f now).2 = none ∧ ∃ e, (r.push timeout f now).1.inflight f.msgId = some e ∧
      Holds f.total chunk start (fun i => got i || i == f.seq.toNat) e := by
  obtain ⟨e, hholds, hpush⟩ := push_chunk hentry hpay hsize
  have hfew : e.received < f.total.toNat := by
    rw [hholds.received]
    have hle := List.countP_le_length (p := fun i => got i || i == f.seq.toNat)
      (l := List.range f.total.toNat)
    have hnot : (List.range f.total.toNat).countP (fun i => got i || i == f.seq.toNat) ≠
        (List.range f.total.toNat).length := fun heq => by
      have hall := List.countP_eq_length.1 heq missing (List.mem_range.2 hlt)
      simp [hgot, Ne.symm hne] at hall
    rw [List.length_range] at hle hnot
    omega
  rw [if_pos hfew] at hpush
  rw [hpush]
  exact ⟨rfl, e, by simp, hholds⟩

theorem push_last {f : Frame}
    (hentry : Holds f.total chunk start got ((r.prune timeout now).entry f now))
    (hpay : f.payload = chunk f.seq.toNat)
    (hsize : ((List.range f.total.toNat).flatMap chunk).length ≤ maxReliableMessage)
    (hall : ∀ i < f.total.toNat, got i = true ∨ i = f.seq.toNat) :
    (r.push timeout f now).2 = some ((List.range f.total.toNat).flatMap chunk) := by
  obtain ⟨e, hholds, hpush⟩ := push_chunk hentry hpay hsize
  have heach : ∀ i < f.total.toNat, (got i || i == f.seq.toNat) = true := fun i hi => by
    rcases hall i hi with h | h <;> simp [h]
  have hfull : ¬e.received < f.total.toNat := by
    have hlen : (List.range f.total.toNat).countP (fun i => got i || i == f.seq.toNat) =
        (List.range f.total.toNat).length :=
      List.countP_eq_length.2 fun i hi => heach i (List.mem_range.1 hi)
    rw [hholds.received, hlen, List.length_range]
    exact Nat.lt_irrefl _
  rw [if_neg hfull] at hpush
  rw [hpush, hholds.data heach]

theorem entry_later {f : Frame} (hr : r.inflight f.msgId = some e)
    (hholds : Holds f.total chunk start got e) (htime : now - start ≤ timeout) :
    Holds f.total chunk start got ((r.prune timeout now).entry f now) := by
  have hkeep : (r.prune timeout now).inflight f.msgId = some e := by
    simp [Reassembler.prune, hr, hholds.startedAt_eq, htime]
  unfold Reassembler.entry
  rw [hkeep]
  simp only [hholds.total_eq, if_true]
  exact hholds

theorem entry_first {f : Frame} (hr : r.inflight f.msgId = none) :
    Holds f.total chunk now (fun _ => false) ((r.prune timeout now).entry f now) := by
  unfold Reassembler.entry
  rw [prune_none hr]
  exact holds_new f.total chunk now

/-- The frames from some point on, when the last of them is the last one missing. -/
theorem outputs_rest {data : Bytes} (hsize : data.length ≤ maxReliableMessage) {last : Frame × τ}
    (before : List (Frame × τ)) (r : Reassembler τ) (start : τ) (got : Nat → Bool)
    (hmade : ∀ a ∈ before ++ [last], Sends id data a.1)
    (hhead : ∀ a, (before ++ [last]).head? = some a → Holds (chunkCount data.length)
      (piece chunkPayload data) start got ((r.prune timeout a.2).entry a.1 a.2))
    (htime : ∀ a ∈ (before ++ [last]).tail, a.2 - start ≤ timeout)
    (hgot : got last.1.seq.toNat = false) (hnew : ∀ b ∈ before, b.1.seq.toNat ≠ last.1.seq.toNat)
    (hall : ∀ i < (chunkCount data.length).toNat, i ≠ last.1.seq.toNat →
      got i = true ∨ ∃ b ∈ before, b.1.seq.toNat = i) :
    outputs timeout r (before ++ [last]) =
      before.map (fun b => (b.1, none)) ++ [(last.1, some data)] := by
  have hdata := (cut_message hsize).data
  induction before generalizing r got with
  | nil =>
    obtain ⟨f, now⟩ := last
    obtain ⟨-, htotal, hpay⟩ := (hmade (f, now) List.mem_cons_self).spec hsize
    have hentry := hhead (f, now) rfl
    rw [← htotal] at hentry hdata hall
    have hout := push_last hentry hpay (by rw [hdata]; exact hsize) fun i hi => by
      by_cases hlast : i = f.seq.toNat
      · exact .inr hlast
      · rcases hall i hi hlast with h | ⟨b, hb, -⟩
        · exact .inl h
        · exact absurd hb List.not_mem_nil
    simp only [List.nil_append, List.map_nil, outputs, hout, hdata]
  | cons b rest ih =>
    obtain ⟨f, now⟩ := b
    obtain ⟨hid, htotal, hpay⟩ := (hmade (f, now) List.mem_cons_self).spec hsize
    obtain ⟨hlid, hltotal, -⟩ := (hmade last (by simp)).spec hsize
    have hentry := hhead (f, now) rfl
    have hlt : last.1.seq.toNat < f.total.toNat := by
      rw [htotal, ← hltotal]
      exact UInt32.lt_iff_toNat_lt.1 last.1.seq_lt
    rw [← htotal] at hentry
    obtain ⟨hnone, e, hr, hholds⟩ := push_partial hentry hpay
      (by rw [htotal, hdata]; exact hsize) hlt hgot (hnew (f, now) List.mem_cons_self)
    have hrest := ih (r.push timeout f now).1 (fun i => got i || i == f.seq.toNat)
      (fun a ha => hmade a (List.mem_cons_of_mem _ ha))
      (fun a ha => by
        have hmem : a ∈ rest ++ [last] := List.mem_of_mem_head? ha
        obtain ⟨haid, hatotal, -⟩ := (hmade a (List.mem_cons_of_mem _ hmem)).spec hsize
        rw [← hatotal]
        rw [htotal, ← hatotal] at hholds
        exact entry_later (by rw [haid, ← hid]; exact hr) hholds (htime a hmem))
      (fun a ha => htime a (List.mem_of_mem_tail ha))
      (by simpa [hgot] using Ne.symm (hnew (f, now) List.mem_cons_self))
      (fun b hb => hnew b (List.mem_cons_of_mem _ hb))
      (fun i hi hne => by
        rcases hall i hi hne with h | ⟨b, hb, hbi⟩
        · exact .inl (by simp [h])
        · rcases List.mem_cons.1 hb with rfl | hb
          · exact .inl (by simp [← hbi])
          · exact .inr ⟨b, hb, hbi⟩)
    simp only [List.cons_append, List.map_cons, outputs, hnone, hrest]

/-- What a channel may do to a message: its frames arrive in any order, in time, and
again only while one of them is missing. -/
structure Assembles (timeout : τ) (id : UInt32) (data : Bytes) (arrivals : List (Frame × τ)) :
    Prop where
  made : ∀ a ∈ arrivals, Sends id data a.1
  every : ∀ seq < (chunkCount data.length).toNat, ∃ a ∈ arrivals, a.1.seq.toNat = seq
  early : ∀ before a, before ++ [a] <+: arrivals →
    ∃ seq < (chunkCount data.length).toNat, ∀ b ∈ before, b.1.seq.toNat ≠ seq
  in_time : ∀ first rest, arrivals = first :: rest → ∀ a ∈ rest, a.2 - first.2 ≤ timeout

omit [DecidableLE τ] in
/-- The frame of the last arrival is the one that was missing. -/
theorem Assembles.split {data : Bytes} {arrivals : List (Frame × τ)}
    (h : Assembles timeout id data arrivals) (hsize : data.length ≤ maxReliableMessage) :
    ∃ before last, arrivals = before ++ [last] ∧
      (∀ b ∈ before, b.1.seq.toNat ≠ last.1.seq.toNat) ∧
      ∀ seq < (chunkCount data.length).toNat, seq ≠ last.1.seq.toNat →
        ∃ b ∈ before, b.1.seq.toNat = seq := by
  have hpos := (chunkCount_spec hsize).1
  obtain ⟨a, ha, -⟩ := h.every 0 hpos
  obtain ⟨before, last, rfl⟩ := List.eq_nil_or_concat' arrivals |>.resolve_left
    (List.ne_nil_of_mem ha)
  obtain ⟨missing, hmissing, hnot⟩ := h.early before last List.prefix_rfl
  have hlast : last.1.seq.toNat = missing := by
    obtain ⟨b, hb, hseq⟩ := h.every missing hmissing
    rcases List.mem_append.1 hb with hb | hb
    · exact absurd hseq (hnot b hb)
    · rw [← List.mem_singleton.1 hb]
      exact hseq
  refine ⟨before, last, rfl, hlast ▸ hnot, fun seq hseq hne => ?_⟩
  obtain ⟨b, hb, heq⟩ := h.every seq hseq
  rcases List.mem_append.1 hb with hb | hb
  · exact ⟨b, hb, heq⟩
  · rw [List.mem_singleton.1 hb] at heq
    exact absurd heq.symm hne

/-- Each message whose frames arrive in time comes out unchanged with its last
missing frame and never else, and no message notices the frames of the others. Readings of the
clock are finite; `NaN` would be no `Clock`. -/
theorem reassembly_isolated (hclock : Clock τ) (timeout : τ) (arrivals : List (Frame × τ))
    (hmono : arrivals.Pairwise fun a b => a.2 ≤ b.2) :
    (∀ id data, data.length ≤ maxReliableMessage → Assembles timeout id data (own id arrivals) →
      ∃ before last, own id arrivals = before ++ [last] ∧
        (∀ b ∈ before, b.1.seq.toNat ≠ last.1.seq.toNat) ∧
        (∀ seq < (chunkCount data.length).toNat, seq ≠ last.1.seq.toNat →
          ∃ b ∈ before, b.1.seq.toNat = seq) ∧
        (outputs timeout Reassembler.empty arrivals).filter (fun o => o.1.msgId = id) =
          before.map (fun b => (b.1, none)) ++ [(last.1, some data)]) ∧
    ∀ m r, (outputs timeout r arrivals).filter (fun o => o.1.msgId = m) =
      outputs timeout r (own m arrivals) := by
  have hown : ∀ m r, (outputs timeout r arrivals).filter (fun o => o.1.msgId = m) =
      outputs timeout r (own m arrivals) :=
    fun m r => outputs_own hclock arrivals r r hmono fun a _ => rfl
  refine ⟨fun id data hsize hassembles => ?_, hown⟩
  obtain ⟨before, last, heq, hnew, hothers⟩ := hassembles.split hsize
  refine ⟨before, last, heq, hnew, hothers, ?_⟩
  have hmade := hassembles.made
  have htime := hassembles.in_time
  rw [hown id, heq]
  rw [heq] at hmade htime
  obtain ⟨first, rest, hfirst⟩ := List.exists_cons_of_ne_nil
    (List.append_ne_nil_of_right_ne_nil before (List.cons_ne_nil last []))
  apply outputs_rest hsize before Reassembler.empty first.2 (fun _ => false) hmade
  · intro a ha
    rw [hfirst, List.head?_cons, Option.some.injEq] at ha
    subst ha
    have hmem : first ∈ before ++ [last] := hfirst ▸ List.mem_cons_self
    rw [← ((hmade first hmem).spec hsize).2.1]
    exact entry_first rfl
  · intro a ha
    rw [hfirst] at ha
    exact htime first rest hfirst a ha
  · rfl
  · exact hnew
  · exact fun i hi hne => .inr (hothers i hi hne)

theorem clock_int : Clock Int :=
  ⟨fun _ _ _ => Int.le_trans, fun _ _ c h => Int.sub_le_sub_right h c⟩

def longMessage : Bytes := List.replicate 20000 7

theorem chunkCount_longMessage : chunkCount longMessage.length = 2 := by
  rw [longMessage, List.length_replicate]
  rfl

def longFrame (seq : UInt32) (h : seq < 2) : Frame :=
  ⟨1, seq, 2, piece chunkPayload longMessage seq.toNat, h⟩

/-- The chunks of a message out of order and one of them twice, with a frame of another message. -/
def mixed : List (Frame × Int) :=
  [(longFrame 1 (by decide), 0), (⟨2, 0, 3, [5], by decide⟩, 5), (longFrame 1 (by decide), 6),
    (longFrame 0 (by decide), 10)]

theorem own_mixed : own 1 mixed = [(longFrame 1 (by decide), 0), (longFrame 1 (by decide), 6),
    (longFrame 0 (by decide), 10)] := rfl

theorem sends_longFrame {seq : UInt32} (h : seq < 2) : Sends 1 longMessage (longFrame seq h) := by
  have hlong : longMessage.length ≤ maxReliableMessage := by
    rw [longMessage, List.length_replicate]
    decide
  have hsends := sends_chunk 1 hlong seq (by rw [chunkCount_longMessage]; exact h)
  simp only [chunkCount_longMessage] at hsends
  exact hsends

theorem assembles_mixed : Assembles 30000 1 longMessage (own 1 mixed) := by
  rw [own_mixed]
  constructor
  · intro a ha
    simp only [List.mem_cons, List.not_mem_nil, or_false] at ha
    rcases ha with rfl | rfl | rfl <;> exact sends_longFrame _
  · intro seq hseq
    have htwo : (2 : UInt32).toNat = 2 := rfl
    rw [chunkCount_longMessage, htwo] at hseq
    obtain rfl | rfl : seq = 0 ∨ seq = 1 := by omega
    · exact ⟨(longFrame 0 (by decide), 10), by simp, rfl⟩
    · exact ⟨(longFrame 1 (by decide), 0), by simp, rfl⟩
  · intro before a hpre
    refine ⟨0, by rw [chunkCount_longMessage]; decide, fun b hb => ?_⟩
    have hprefix :
        before <+: [(longFrame 1 (by decide), (0 : Int)), (longFrame 1 (by decide), 6)] := by
      have hlen := hpre.length_le
      rw [List.length_append, List.length_singleton] at hlen
      exact List.prefix_of_prefix_length_le ((List.prefix_append before [a]).trans hpre)
        (List.prefix_append _ [(longFrame 0 (by decide), (10 : Int))])
        (Nat.le_of_succ_le_succ hlen)
    have hmem := hprefix.subset hb
    simp only [List.mem_cons, List.not_mem_nil, or_false] at hmem
    rcases hmem with rfl | rfl <;> decide
  · intro first rest heq a ha
    cases heq
    simp only [List.mem_cons, List.not_mem_nil, or_false] at ha
    rcases ha with rfl | rfl <;> decide

theorem reassembly_isolated_mixed :
    (outputs 30000 Reassembler.empty mixed).filter (fun o => o.1.msgId = 1) =
      [(longFrame 1 (by decide), none), (longFrame 1 (by decide), none),
        (longFrame 0 (by decide), some longMessage)] := by
  have hlong : longMessage.length ≤ maxReliableMessage := by
    rw [longMessage, List.length_replicate]
    decide
  obtain ⟨hmessages, -⟩ := reassembly_isolated clock_int 30000 mixed (by decide)
  obtain ⟨before, last, heq, -, -, hout⟩ := hmessages 1 longMessage hlong assembles_mixed
  have hsplit : [(longFrame 1 (by decide), 0), (longFrame 1 (by decide), 6)] ++
      [(longFrame 0 (by decide), 10)] = before ++ [last] := heq
  obtain ⟨rfl, hlast⟩ := List.append_inj' hsplit rfl
  cases hlast
  exact hout

end Lobbylink.Client.Interleaving
