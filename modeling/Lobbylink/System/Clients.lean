import Lobbylink.Client.Receipt
import Lobbylink.System.Formats
import Mathlib.Data.Int.Order.Basic
import Mathlib.Order.Lattice

/-! The reassemblers of the other clients mirror the one of the Rust client: what one
of them holds, all hold. The readings of a clock and their differences are ordered. -/
namespace Lobbylink.System.Clients
open Lib.Bytes Lib.Runs Client.Framing Client.Reassembly Client.Receipt Formats

variable {τ : Type}

/-- Takes a buffer: why it is dropped, or what its frame completes. -/
def take {R F : Type} (parse : Bytes → Except String F) (push : R → F → τ → R × Option Bytes)
    (r : R) (arrival : Bytes × τ) : R × Except String (Option Bytes) :=
  match parse arrival.1 with
  | .error reason => (r, .error reason)
  | .ok frame => ((push r frame arrival.2).1, .ok (push r frame arrival.2).2)

/-- Two clients that read the same frames and push them alike take buffers alike. -/
theorem take_agree {R R' F F' : Type} {parse : Bytes → Except String F}
    {parse' : Bytes → Except String F'} {push : R → F → τ → R × Option Bytes}
    {push' : R' → F' → τ → R' × Option Bytes} {sim : R → R' → Prop} (same : F → F')
    (hparse : ∀ buf, parse' buf = (parse buf).map same)
    (hpush : ∀ r r' buf f now, sim r r' → parse buf = .ok f →
      sim (push r f now).1 (push' r' (same f) now).1 ∧
        (push' r' (same f) now).2 = (push r f now).2)
    (r : R) (r' : R') (arrival : Bytes × τ) (h : sim r r') :
    sim (take parse push r arrival).1 (take parse' push' r' arrival).1 ∧
      (take parse' push' r' arrival).2 = (take parse push r arrival).2 := by
  unfold take
  rw [hparse]
  cases hbuf : parse arrival.1 with
  | error reason => exact ⟨h, rfl⟩
  | ok f =>
    obtain ⟨hsim, hdone⟩ := hpush r r' arrival.1 f arrival.2 h hbuf
    exact ⟨hsim, congrArg Except.ok hdone⟩

/-- Another client's map has the same entries, under its own keys. -/
structure Mirrors {κ ε : Type} (key : UInt32 → κ) (view : Entry τ → ε) (r : Reassembler τ)
    (inflight : κ → Option ε) : Prop where
  sound : ∀ id e, r.inflight id = some e → Sound e
  same : ∀ id, inflight (key id) = (r.inflight id).map view

section Mirrors
variable {κ ε : Type} {key : UInt32 → κ} {view : Entry τ → ε}
  {r : Reassembler τ} {inflight : κ → Option ε}

theorem Mirrors.set [DecidableEq κ] (h : Mirrors key view r inflight)
    (hkey : Function.Injective key) (id : UInt32) {e : Option (Entry τ)} (he : ∀ x, e = some x → Sound x) :
    Mirrors key view (r.set id e) fun k => if k = key id then e.map view else inflight k where
  sound := by
    intro id' x hx
    rw [inflight_set] at hx
    split_ifs at hx
    · exact he x hx
    · exact h.sound id' x hx
  same := by
    intro id'
    simp only [inflight_set, hkey.eq_iff]
    split_ifs
    · rfl
    · exact h.same id'

variable [LinearOrder τ] [Sub τ]

theorem Mirrors.prune (h : Mirrors key view r inflight) (timeout now : τ) (keep : ε → Bool)
    (hkeep : ∀ e, keep (view e) = decide (now - e.startedAt ≤ timeout)) :
    Mirrors key view (r.prune timeout now) fun k => (inflight k).filter keep where
  sound := by
    intro id e he
    unfold Reassembler.prune at he
    exact h.sound id e ((Option.filter_eq_some_iff.1 he).1)
  same := by
    intro id
    unfold Reassembler.prune
    simp only [h.same]
    cases hr : r.inflight id with
    | none => rfl
    | some e => simp only [Option.map_some, Option.filter_some, hkeep]; split_ifs <;> rfl

end Mirrors

theorem mirrors_empty {κ ε : Type} (key : UInt32 → κ) (view : Entry τ → ε) :
    Mirrors key view Reassembler.empty fun _ => none where
  sound := by
    intro id e he
    cases he
  same := fun _ => rfl

variable {r : Reassembler τ} {f : Frame}

theorem Mirrors.entry {κ ε : Type} {key : UInt32 → κ} {view : Entry τ → ε}
    {inflight : κ → Option ε} (h : Mirrors key view r inflight) (hf : f.Fits) (now : τ) :
    Sound (r.entry f now) := by
  unfold Reassembler.entry
  cases hr : r.inflight f.msgId with
  | none => exact sound_new hf.1 now
  | some e =>
    simp only
    split_ifs
    · exact h.sound f.msgId e hr
    · exact sound_new hf.1 now

variable [LinearOrder τ] [Sub τ]

theorem agree_ite {α β : Type} {agree : α → β → Prop} {c c' : Prop} [Decidable c] [Decidable c']
    {a b : α} {a' b' : β} (hc : c' ↔ c) (hthen : c → agree a a') (helse : ¬c → agree b b') :
    agree (if c then a else b) (if c' then a' else b') := by
  by_cases h : c
  · rw [if_pos h, if_pos (hc.2 h)]
    exact hthen h
  · rw [if_neg h, if_neg fun h' => h (hc.1 h')]
    exact helse h

def tsEntry (e : Entry τ) : Ts.Reliable.Reassembly τ :=
  ⟨e.total.toNat, e.chunks, e.received, e.bytes, e.startedAt⟩

def TsMirrors (r : Reassembler τ) (t : Ts.Reliable.Reassembler τ) : Prop :=
  Mirrors UInt32.toNat tsEntry r t.inflight

def TsAgree (pushed : Reassembler τ × Option Bytes)
    (copied : Ts.Reliable.Reassembler τ × Option Bytes) : Prop :=
  TsMirrors pushed.1 copied.1 ∧ copied.2 = pushed.2

section Entries
omit [LinearOrder τ] [Sub τ]

theorem toNat_injective : Function.Injective UInt32.toNat := fun _ _ => UInt32.toNat_inj.1

theorem ts_store {e : Entry τ} {seq : Nat} (hslot : e.chunks[seq]? = some none)
    (payload : Bytes) : tsEntry (e.store seq payload) = (tsEntry e).store seq payload := by
  unfold Entry.store
  rw [dif_pos hslot]
  rfl

theorem ts_finish {r : Reassembler τ} {t : Ts.Reliable.Reassembler τ} (h : TsMirrors r t)
    (id : UInt32) {e : Entry τ} (he : Sound e) :
    TsAgree (settle r id e) (t.finish id.toNat (tsEntry e)) := by
  have hmore : (tsEntry e).received < (tsEntry e).total ↔ e.received < e.total.toNat := Iff.rfl
  apply agree_ite hmore
  · intro _
    exact ⟨h.set toNat_injective id (e := some e) fun x hx => Option.some.inj hx ▸ he, rfl⟩
  · intro hall
    exact ⟨h.set toNat_injective id (e := none) (by simp), he.fill hall⟩

theorem ts_entry {r : Reassembler τ} {t : Ts.Reliable.Reassembler τ} (h : TsMirrors r t)
    (f : Frame) (now : τ) : t.entry (tsFrame f) now = tsEntry (r.entry f now) := by
  have hsame : t.inflight (tsFrame f).msgId = (r.inflight f.msgId).map tsEntry := h.same f.msgId
  unfold Ts.Reliable.Reassembler.entry Reassembler.entry
  rw [hsame]
  cases r.inflight f.msgId with
  | none => rfl
  | some e =>
    have htotal : (tsEntry e).total ≠ (tsFrame f).total ↔ ¬e.total = f.total :=
      not_congr UInt32.toNat_inj
    simp only [Option.map_some, htotal]
    split_ifs <;> rfl

end Entries

theorem ts_push [NatCast τ] {r : Reassembler τ} {t : Ts.Reliable.Reassembler τ}
    (h : TsMirrors r t) {f : Frame} (hf : f.Fits) (now : τ) :
    TsAgree (r.push (reassemblyTimeoutMs : τ) f now) (t.push (tsFrame f) now) := by
  have hpruned : TsMirrors (r.prune (reassemblyTimeoutMs : τ) now) (t.prune now) :=
    h.prune _ now _ fun e => by
      rw [← decide_not, decide_eq_decide]
      exact not_lt
  have htotal := entry_total (r.prune (reassemblyTimeoutMs : τ) now) f now
  have hsound := Mirrors.entry hpruned hf now
  rw [push_eq]
  unfold Ts.Reliable.Reassembler.push
  simp only [ts_entry hpruned]
  generalize (r.prune (reassemblyTimeoutMs : τ) now).entry f now = e at *
  apply agree_ite (slot_missing htotal)
  · intro hslot
    have hstore : tsEntry (e.store f.seq.toNat f.payload) =
        (tsEntry e).store (tsFrame f).seq (tsFrame f).payload := ts_store hslot f.payload
    have hbig : ((tsEntry e).store (tsFrame f).seq (tsFrame f).payload).bytes >
        Ts.Reliable.maxReliableMessage ↔ e.bytes + f.payload.length > maxReliableMessage := Iff.rfl
    rw [← hstore] at hbig ⊢
    apply agree_ite hbig
    · intro _
      exact ⟨hpruned.set toNat_injective f.msgId (e := none) (by simp), rfl⟩
    · intro hroom
      exact ts_finish hpruned f.msgId (hsound.store hslot (Nat.not_lt.1 hroom))
  · intro _
    exact ts_finish hpruned f.msgId hsound

def javaEntry (e : Entry τ) : Java.Reliable.Entry τ :=
  ⟨e.total.toNat, e.chunks, e.received, e.bytes, e.startedAt⟩

def javaKey (id : UInt32) : Int := Java.Reliable.int id.toNat

def JavaMirrors (r : Reassembler τ) (j : Java.Reliable.Reassembler τ) : Prop :=
  Mirrors javaKey javaEntry r j.inflight

def JavaAgree (pushed : Reassembler τ × Option Bytes)
    (copied : Java.Reliable.Reassembler τ × Option Bytes) : Prop :=
  JavaMirrors pushed.1 copied.1 ∧ copied.2 = pushed.2

section Entries
omit [LinearOrder τ] [Sub τ]

theorem javaKey_injective : Function.Injective javaKey := by
  intro a b hab
  have ha := int_word a
  have hb := int_word b
  have hsame : Java.Reliable.int a.toNat = Java.Reliable.int b.toNat := hab
  rw [hsame, hb] at ha
  exact UInt32.toNat_inj.1 (Int.ofNat_inj.1 ha).symm

theorem java_store {e : Entry τ} (he : Sound e) {seq : Nat} (hslot : e.chunks[seq]? = some none)
    (payload : Bytes) : javaEntry (e.store seq payload) = (javaEntry e).store seq payload := by
  have hreceived := he.received_le
  have hcount : Java.Reliable.int ((e.received : Int) + 1) = (e.received + 1 : Nat) :=
    int_of_lt (n := e.received + 1) (by omega)
  unfold Entry.store
  rw [dif_pos hslot]
  unfold Java.Reliable.Entry.store javaEntry
  simp only [hcount, Int.toNat_natCast, Int.natCast_add]

theorem java_finish {r : Reassembler τ} {j : Java.Reliable.Reassembler τ} (h : JavaMirrors r j)
    (id : UInt32) {e : Entry τ} (he : Sound e) :
    JavaAgree (settle r id e) (j.finish (javaKey id) (javaEntry e)) := by
  have hmore : (javaEntry e).received < (javaEntry e).total ↔ e.received < e.total.toNat :=
    Int.ofNat_lt
  apply agree_ite hmore
  · intro _
    exact ⟨h.set javaKey_injective id (e := some e) fun x hx => Option.some.inj hx ▸ he, rfl⟩
  · intro hall
    have hsize : (Java.Reliable.int (javaEntry e).bytes).toNat = e.bytes := by
      have hbytes := he.bytes_le
      unfold maxReliableMessage at hbytes
      exact (congrArg Int.toNat (int_of_lt (by omega))).trans (Int.toNat_natCast _)
    rw [hsize]
    exact ⟨h.set javaKey_injective id (e := none) (by simp), he.fill hall⟩

theorem java_entry {r : Reassembler τ} {j : Java.Reliable.Reassembler τ} (h : JavaMirrors r j)
    (f : Frame) (now : τ) : j.entry (javaFrame f) now = javaEntry (r.entry f now) := by
  have hsame : j.inflight (javaFrame f).msgId = (r.inflight f.msgId).map javaEntry :=
    h.same f.msgId
  unfold Java.Reliable.Reassembler.entry Reassembler.entry
  rw [hsame]
  cases r.inflight f.msgId with
  | none => rfl
  | some e =>
    have htotal : (javaEntry e).total ≠ (javaFrame f).total ↔ ¬e.total = f.total :=
      not_congr (Int.ofNat_inj.trans UInt32.toNat_inj)
    simp only [Option.map_some, htotal]
    split_ifs <;> rfl

end Entries

theorem java_push [NatCast τ] {r : Reassembler τ} {j : Java.Reliable.Reassembler τ}
    (h : JavaMirrors r j) {f : Frame} (hf : f.Fits) (now : τ) :
    JavaAgree (r.push (reassemblyTimeoutMs : τ) f now) (j.push (javaFrame f) now) := by
  have hpruned : JavaMirrors (r.prune (reassemblyTimeoutMs : τ) now) (j.prune now) :=
    h.prune _ now _ fun e => by
      rw [← decide_not, decide_eq_decide]
      exact not_lt
  have htotal := entry_total (r.prune (reassemblyTimeoutMs : τ) now) f now
  have hsound := Mirrors.entry hpruned hf now
  rw [push_eq]
  unfold Java.Reliable.Reassembler.push
  simp only [java_entry hpruned]
  generalize (r.prune (reassemblyTimeoutMs : τ) now).entry f now = e at *
  apply agree_ite (slot_missing htotal)
  · intro hslot
    have hstore : javaEntry (e.store f.seq.toNat f.payload) =
        (javaEntry e).store (javaFrame f).seq (javaFrame f).payload :=
      java_store hsound hslot f.payload
    have hbig : ((javaEntry e).store (javaFrame f).seq (javaFrame f).payload).bytes >
        Java.Reliable.maxReliableMessage ↔ e.bytes + f.payload.length > maxReliableMessage := by
      exact Int.ofNat_lt
    rw [← hstore] at hbig ⊢
    apply agree_ite hbig
    · intro _
      exact ⟨hpruned.set javaKey_injective f.msgId (e := none) (by simp), rfl⟩
    · intro hroom
      exact java_finish hpruned f.msgId (hsound.store hslot (Nat.not_lt.1 hroom))
  · intro _
    exact java_finish hpruned f.msgId hsound

variable [NatCast τ]

theorem ts_answers (arrivals : List (Bytes × τ)) :
    answers (take Ts.Reliable.parseFrame Ts.Reliable.Reassembler.push) .empty arrivals =
      answers (take parseFrame (Reassembler.push (reassemblyTimeoutMs : τ))) .empty arrivals := by
  have hts : TsMirrors (Reassembler.empty : Reassembler τ) .empty := mirrors_empty _ _
  apply answers_eq TsMirrors _ hts
  apply take_agree tsFrame ts_parse
  intro r t buf f now h hbuf
  exact ts_push h (parse_ok hbuf).1 now

theorem java_answers (arrivals : List (Bytes × τ)) :
    answers (take Java.Reliable.parse Java.Reliable.Reassembler.push) .empty arrivals =
      answers (take parseFrame (Reassembler.push (reassemblyTimeoutMs : τ))) .empty arrivals := by
  have hjava : JavaMirrors (Reassembler.empty : Reassembler τ) .empty := mirrors_empty _ _
  apply answers_eq JavaMirrors _ hjava
  apply take_agree javaFrame java_parse
  intro r j buf f now h hbuf
  exact java_push h (parse_ok hbuf).1 now

/-- What each client makes of everything that arrives, at finite readings of its clock, is the
same, and so are the frames of any message. -/
theorem clients_agree (arrivals : List (Bytes × τ)) :
    answers (take Ts.Reliable.parseFrame Ts.Reliable.Reassembler.push) .empty arrivals =
      answers (take parseFrame (Reassembler.push (reassemblyTimeoutMs : τ))) .empty arrivals ∧
    answers (take Java.Reliable.parse Java.Reliable.Reassembler.push) .empty arrivals =
      answers (take parseFrame (Reassembler.push (reassemblyTimeoutMs : τ))) .empty arrivals ∧
    ∀ (msgId : UInt32) (data : Bytes), data.length ≤ maxReliableMessage →
      Ts.Reliable.sendReliableNow msgId.toNat data = frames msgId data ∧
      Java.Reliable.sendOne (Java.Reliable.int msgId.toNat) data = frames msgId data :=
  ⟨ts_answers arrivals, java_answers arrivals,
    fun msgId _ h => ⟨ts_frames msgId h, java_frames msgId h⟩⟩

/-- Message ids from `2 ^ 31` on are negative in Java. -/
theorem clients_agree_negative :
    answers (take Java.Reliable.parse Java.Reliable.Reassembler.push) .empty
      [(Java.Reliable.makeFrame (-1) 0 1 [7] 0 1, (0 : Int))] = [.ok (some [7])] ∧
    Java.Reliable.sendOne (-1) [7] = Ts.Reliable.sendReliableNow 4294967295 [7] := by
  obtain ⟨-, hjava, hframes⟩ :=
    clients_agree [(Java.Reliable.makeFrame (-1) 0 1 [7] 0 1, (0 : Int))]
  obtain ⟨hts, hsent⟩ := hframes 4294967295 [7] (by decide)
  have hrust : answers (take parseFrame (Reassembler.push (reassemblyTimeoutMs : Int))) .empty
      [(Java.Reliable.makeFrame (-1) 0 1 [7] 0 1, (0 : Int))] = [.ok (some [7])] := by
    decide +kernel
  have hlast : (4294967295 : UInt32).toNat = 4294967295 := by decide
  have hid : Java.Reliable.int (4294967295 : Nat) = -1 := by decide
  rw [hlast] at hts hsent
  rw [hid] at hsent
  exact ⟨hjava.trans hrust, hsent.trans hts.symm⟩

end Lobbylink.System.Clients
