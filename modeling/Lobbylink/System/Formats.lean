import Lobbylink.Client.Interleaving
import Lobbylink.Java.Reliable
import Lobbylink.Ts.Reliable

/-! The three clients have one wire format: they reject the same buffers for the same
reason, read the same frames from the others and send the same frames. -/
namespace Lobbylink.System.Formats
open Lib.Bytes Client.Framing Client.Reassembly Client.Sender

def tsFrame (f : Frame) : Ts.Reliable.ParsedFrame :=
  ⟨f.msgId.toNat, f.seq.toNat, f.total.toNat, f.payload⟩

def javaFrame (f : Frame) : Java.Reliable.Frame :=
  ⟨Java.Reliable.int f.msgId.toNat, f.seq.toNat, f.total.toNat, f.payload⟩

theorem ts_word (buf : Bytes) (off : Nat) :
    Ts.Reliable.getUint32 buf off = (beU32 buf off).toNat :=
  (toNat_fromBE _ _ _ _).symm

theorem ts_byte {buf : Bytes} {off : Nat} {b : UInt8} :
    Ts.Reliable.getUint8 buf off = b.toNat ↔ buf.getD off 0 = b :=
  UInt8.toNat_inj

theorem ts_parse (buf : Bytes) :
    Ts.Reliable.parseFrame buf = (parseFrame buf).map tsFrame := by
  have hmagic : Ts.Reliable.getUint8 buf 0 = Ts.Reliable.frameMagic ↔ buf.getD 0 0 = frameMagic :=
    ts_byte (b := frameMagic)
  have hversion : Ts.Reliable.getUint8 buf 1 = Ts.Reliable.frameVersion ↔
      buf.getD 1 0 = frameVersion := ts_byte (b := frameVersion)
  have htotal : ((beU32 buf 10).toNat < 1 ∨
      (beU32 buf 10).toNat > Ts.Reliable.maxReassemblyChunks) ↔
      (beU32 buf 10 < 1 ∨ maxReassemblyChunks < beU32 buf 10) := by
    simp only [UInt32.lt_iff_toNat_lt]
    exact Iff.rfl
  have hseq : (beU32 buf 6).toNat ≥ (beU32 buf 10).toNat ↔ beU32 buf 10 ≤ beU32 buf 6 :=
    UInt32.le_iff_toNat_le.symm
  unfold Ts.Reliable.parseFrame parseFrame
  simp only [ts_word, ne_eq, hmagic, hversion, htotal, hseq]
  change (if buf.length < frameHeaderLen then _ else _) = _
  split_ifs <;> first | rfl | contradiction

theorem or_eq_add {x y n : Nat} (hx : 2 ^ n ∣ x) (hy : y < 2 ^ n) : x ||| y = x + y := by
  obtain ⟨k, rfl⟩ := hx
  rw [Nat.mul_comm, ← Nat.shiftLeft_eq, ← Nat.shiftLeft_add_eq_or_of_lt hy]

theorem java_word (buf : Bytes) (off : Nat) :
    Java.Reliable.getU32 buf off = (beU32 buf off).toNat := by
  have ha := (buf.getD off 0).toNat_lt
  have hb := (buf.getD (off + 1) 0).toNat_lt
  have hc := (buf.getD (off + 2) 0).toNat_lt
  have hd := (buf.getD (off + 3) 0).toNat_lt
  unfold Java.Reliable.getU32 Java.Reliable.unsigned beU32
  rw [toNat_fromBE]
  generalize (buf.getD off 0).toNat = a at *
  generalize (buf.getD (off + 1) 0).toNat = b at *
  generalize (buf.getD (off + 2) 0).toNat = c at *
  generalize (buf.getD (off + 3) 0).toNat = d at *
  simp only [Nat.shiftLeft_eq]
  have hfirst : a * 2 ^ 24 ||| b * 2 ^ 16 = a * 2 ^ 24 + b * 2 ^ 16 :=
    or_eq_add (n := 24) ⟨a, by omega⟩ (by omega)
  have hsecond : a * 2 ^ 24 + b * 2 ^ 16 ||| c * 2 ^ 8 = a * 2 ^ 24 + b * 2 ^ 16 + c * 2 ^ 8 :=
    or_eq_add (n := 16) ⟨a * 2 ^ 8 + b, by omega⟩ (by omega)
  have hthird : a * 2 ^ 24 + b * 2 ^ 16 + c * 2 ^ 8 ||| d =
      a * 2 ^ 24 + b * 2 ^ 16 + c * 2 ^ 8 + d :=
    or_eq_add (n := 8) ⟨a * 2 ^ 16 + b * 2 ^ 8 + c, by omega⟩ (by omega)
  rw [hfirst, hsecond, hthird]

theorem int_of_lt {n : Nat} (h : n < 2 ^ 31) : Java.Reliable.int n = n := by
  unfold Java.Reliable.int
  omega

theorem java_parse (buf : Bytes) :
    Java.Reliable.parse buf = (parseFrame buf).map javaFrame := by
  have htotal : (((beU32 buf 10).toNat : Int) < 1 ∨
      ((beU32 buf 10).toNat : Int) > Java.Reliable.maxReassemblyChunks) ↔
      (beU32 buf 10 < 1 ∨ maxReassemblyChunks < beU32 buf 10) := by
    have hone : (1 : UInt32).toNat = 1 := rfl
    have hmax : maxReassemblyChunks.toNat = 4096 := rfl
    simp only [UInt32.lt_iff_toNat_lt, hone, hmax, Java.Reliable.maxReassemblyChunks]
    omega
  have hseq : ((beU32 buf 6).toNat : Int) ≥ (beU32 buf 10).toNat ↔
      beU32 buf 10 ≤ beU32 buf 6 := by
    rw [UInt32.le_iff_toNat_le]
    omega
  have hshort : (buf.length : Int) < Java.Reliable.headerLen ↔ buf.length < frameHeaderLen := by
    unfold Java.Reliable.headerLen frameHeaderLen
    omega
  have hbig : ((beU32 buf 14).toNat : Int) > Java.Reliable.maxFramePayload ↔
      (beU32 buf 14).toNat > maxFramePayload := by
    unfold Java.Reliable.maxFramePayload maxFramePayload
    omega
  unfold Java.Reliable.parse parseFrame
  simp only [java_word, htotal, hseq, hshort, hbig]
  by_cases hlen : buf.length < frameHeaderLen
  · rw [if_pos hlen, if_pos hlen]
    rfl
  rw [if_neg hlen, if_neg hlen]
  have hpayload : ((beU32 buf 14).toNat : Int) ≠ buf.length - Java.Reliable.headerLen ↔
      (beU32 buf 14).toNat ≠ buf.length - frameHeaderLen := by
    unfold Java.Reliable.headerLen frameHeaderLen
    unfold frameHeaderLen at hlen
    omega
  simp only [hpayload]
  change (if buf.getD 0 0 ≠ frameMagic then _ else if buf.getD 1 0 ≠ frameVersion then _ else _) = _
  split_ifs with hmagic hversion hcount hrange
  · rfl
  · rfl
  · rfl
  · rfl
  · rfl
  · rfl
  · have hmax : (beU32 buf 10).toNat ≤ 4096 :=
      UInt32.le_iff_toNat_le.1 (UInt32.not_lt.1 (not_or.1 hcount).2)
    rw [UInt32.not_le, UInt32.lt_iff_toNat_lt] at hrange
    rw [int_of_lt (show (beU32 buf 6).toNat < 2 ^ 31 by omega),
      int_of_lt (show (beU32 buf 10).toNat < 2 ^ 31 by omega)]
    rfl

theorem ts_putWord {x : UInt32} {v : Nat} (h : v % 2 ^ 32 = x.toNat) :
    Ts.Reliable.setUint32 (Ts.Reliable.toUint32 v) = toBE x := by
  unfold Ts.Reliable.toUint32
  rw [h]
  rfl

theorem java_putWord {x : UInt32} {v : Int} (h : v % 2 ^ 32 = x.toNat) :
    Java.Reliable.putU32 v = toBE x := by
  unfold Java.Reliable.putU32 Java.Reliable.ushr
  rw [h]
  simp only [Int.toNat_natCast, Nat.shiftRight_eq_div_pow, toBE, Nat.pow_zero, Nat.div_one]

theorem toNat_chunkCount {len : Nat} (h : len ≤ maxReliableMessage) :
    (chunkCount len).toNat = if len = 0 then 1 else (len + 16383) / 16384 := by
  unfold maxReliableMessage at h
  unfold chunkCount chunkPayload
  split_ifs
  · rfl
  · simp only [Nat.toUInt32, UInt32.toNat_ofNat']
    omega

theorem ts_count {len : Nat} (h : len ≤ maxReliableMessage) :
    max 1 (Ts.Reliable.ceilDiv len Ts.Reliable.chunkPayload) = (chunkCount len).toNat := by
  rw [toNat_chunkCount h]
  unfold Ts.Reliable.ceilDiv Ts.Reliable.chunkPayload
  split_ifs <;> omega

theorem java_count {len : Nat} (h : len ≤ maxReliableMessage) :
    Java.Reliable.chunkCount len = (chunkCount len).toNat := by
  rw [toNat_chunkCount h]
  unfold maxReliableMessage at h
  unfold Java.Reliable.chunkCount Java.Reliable.chunkPayload Java.Reliable.int
  split_ifs with hzero hzero'
  · rfl
  · omega
  · omega
  · rw [Int.tdiv_eq_ediv_of_nonneg (by omega)]
    omega

theorem toNat_length (payload : Bytes) :
    payload.length.toUInt32.toNat = payload.length % 2 ^ 32 := by
  simp only [Nat.toUInt32, UInt32.toNat_ofNat']

theorem ts_makeFrame (msgId total : UInt32) (seq : Nat) (payload : Bytes) :
    Ts.Reliable.makeFrame msgId.toNat seq total.toNat payload =
      makeFrame msgId seq.toUInt32 total payload := by
  have hword : seq % 2 ^ 32 = seq.toUInt32.toNat := by
    simp only [Nat.toUInt32, UInt32.toNat_ofNat']
  have hhead : Ts.Reliable.setUint8 Ts.Reliable.frameMagic ++
      Ts.Reliable.setUint8 Ts.Reliable.frameVersion = [frameMagic, frameVersion] := rfl
  unfold Ts.Reliable.makeFrame makeFrame
  rw [hhead, ts_putWord (Nat.mod_eq_of_lt msgId.toNat_lt), ts_putWord hword,
    ts_putWord (Nat.mod_eq_of_lt total.toNat_lt), ts_putWord (toNat_length payload).symm]

theorem int_word (x : UInt32) : Java.Reliable.int x.toNat % 2 ^ 32 = x.toNat := by
  have hx := x.toNat_lt
  unfold Java.Reliable.int
  omega

theorem toUInt32_word (n : Nat) : (n : Int) % 2 ^ 32 = n.toUInt32.toNat := by
  simp only [Nat.toUInt32, UInt32.toNat_ofNat']
  omega

theorem java_makeFrame (msgId total : UInt32) {seq : Nat} (payload : Bytes) {off len : Nat}
    (hlen : off + len ≤ payload.length) :
    Java.Reliable.makeFrame (Java.Reliable.int msgId.toNat) seq total.toNat payload off len =
      makeFrame msgId seq.toUInt32 total ((payload.drop off).take len) := by
  have htotal : (total.toNat : Int) % 2 ^ 32 = total.toNat :=
    Int.emod_eq_of_lt (Int.natCast_nonneg _) (Int.ofNat_lt.2 total.toNat_lt)
  have hpart : ((payload.drop off).take len).length = len := by
    rw [List.length_take, List.length_drop]
    omega
  have hhead : [Java.Reliable.magic, Java.Reliable.version] = [frameMagic, frameVersion] := rfl
  unfold Java.Reliable.makeFrame makeFrame
  rw [hhead, hpart, java_putWord (int_word msgId), java_putWord (toUInt32_word seq),
    java_putWord htotal, java_putWord (toUInt32_word len), Int.toNat_natCast, Int.toNat_natCast]

def frames (msgId : UInt32) (data : Bytes) : List Bytes :=
  (sendOne msgId ⟨data, true, fun _ => true⟩).2.frames

theorem chunkLoop_all (data : Bytes) (msgId total : UInt32) (left seq : Nat) :
    (chunkLoop ⟨data, true, fun _ => true⟩ msgId total left seq).frames =
      (List.range' seq left).map (chunkFrame msgId total data) := by
  induction left generalizing seq with
  | zero => rfl
  | succ left ih =>
    unfold chunkLoop
    simp only [if_true, ih, List.range'_succ, List.map_cons]

theorem frames_eq (msgId : UInt32) (data : Bytes) :
    frames msgId data = (List.range (chunkCount data.length).toNat).map
      (chunkFrame msgId (chunkCount data.length) data) := by
  rw [List.range_eq_range']
  exact chunkLoop_all data msgId _ _ 0

theorem ts_frames (msgId : UInt32) {data : Bytes} (h : data.length ≤ maxReliableMessage) :
    Ts.Reliable.sendReliableNow msgId.toNat data = frames msgId data := by
  unfold Ts.Reliable.sendReliableNow
  simp only [ts_count h]
  rw [frames_eq]
  refine List.map_congr_left fun seq _ => ?_
  rw [ts_makeFrame]
  have hchunk : Ts.Reliable.chunkPayload = chunkPayload := rfl
  unfold chunkFrame slice Ts.Reliable.subarray
  simp only [List.drop_take, hchunk]

theorem java_frames (msgId : UInt32) {data : Bytes} (h : data.length ≤ maxReliableMessage) :
    Java.Reliable.sendOne (Java.Reliable.int msgId.toNat) data = frames msgId data := by
  unfold Java.Reliable.sendOne
  simp only [java_count h, Int.toNat_natCast]
  rw [frames_eq]
  refine List.map_congr_left fun seq hseq => ?_
  have hlt := List.mem_range.1 hseq
  have hcount := toNat_chunkCount h
  unfold maxReliableMessage at h
  have hstart : seq * 16384 ≤ data.length := by
    split_ifs at hcount <;> omega
  have hoff : Java.Reliable.int ((seq : Int) * Java.Reliable.chunkPayload) =
      (seq * chunkPayload : Nat) := by
    unfold Java.Reliable.int Java.Reliable.chunkPayload chunkPayload
    omega
  have hstop : Java.Reliable.int (min (Java.Reliable.int ((seq * chunkPayload : Nat) +
      Java.Reliable.chunkPayload)) data.length - (seq * chunkPayload : Nat)) =
      (min (seq * chunkPayload + chunkPayload) data.length - seq * chunkPayload : Nat) := by
    unfold Java.Reliable.int Java.Reliable.chunkPayload chunkPayload
    omega
  have hfit : seq * chunkPayload +
      (min (seq * chunkPayload + chunkPayload) data.length - seq * chunkPayload) ≤ data.length := by
    have hfirst : seq * chunkPayload ≤ data.length := hstart
    omega
  rw [hoff, hstop, java_makeFrame msgId _ data hfit]
  unfold chunkFrame slice
  simp only [List.drop_take]

end Lobbylink.System.Formats
