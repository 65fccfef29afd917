import Lobbylink.Lib.Bytes

/-! The frames of the reliable channel: a fixed header of big-endian words, then
the payload. Parsing accepts exactly the frames that `makeFrame` makes. -/
namespace Lobbylink.Client.Framing
open Lib.Bytes

abbrev Bytes := List UInt8

def frameMagic : UInt8 := 0x4C
def frameVersion : UInt8 := 0x01
def frameHeaderLen : Nat := 18
def chunkPayload : Nat := 16 * 1024
def maxFramePayload : Nat := 64 * 1024
def maxReliableMessage : Nat := 16 * 1024 * 1024
def maxReassemblyChunks : UInt32 := 4096

def makeFrame (msgId seq total : UInt32) (payload : Bytes) : Bytes :=
  [frameMagic, frameVersion] ++ toBE msgId ++ toBE seq ++ toBE total ++
    toBE payload.length.toUInt32 ++ payload

/-- `len.div_ceil(CHUNK_PAYLOAD) as u32`; an empty message is one frame. -/
def chunkCount (len : Nat) : UInt32 :=
  if len = 0 then 1 else ((len + chunkPayload - 1) / chunkPayload).toUInt32

/-- A received frame. Only `parseFrame` makes one, with its sequence number in range. -/
structure Frame where
  msgId : UInt32
  seq : UInt32
  total : UInt32
  payload : Bytes
  seq_lt : seq < total
  deriving DecidableEq

def beU32 (buf : Bytes) (off : Nat) : UInt32 :=
  fromBE (buf.getD off 0) (buf.getD (off + 1) 0) (buf.getD (off + 2) 0) (buf.getD (off + 3) 0)

def parseFrame (buf : Bytes) : Except String Frame :=
  if buf.length < frameHeaderLen then .error "frame shorter than header"
  else if buf.getD 0 0 ≠ frameMagic then .error "bad frame magic"
  else if buf.getD 1 0 ≠ frameVersion then .error "unsupported frame version"
  else
    let msgId := beU32 buf 2
    let seq := beU32 buf 6
    let total := beU32 buf 10
    let payloadLen := (beU32 buf 14).toNat
    if total < 1 ∨ maxReassemblyChunks < total then .error "bad frame total"
    else if h : total ≤ seq then .error "frame seq out of range"
    else if payloadLen > maxFramePayload then .error "frame payload too large"
    else if payloadLen ≠ buf.length - frameHeaderLen then
      .error "frame payload length mismatch"
    else .ok ⟨msgId, seq, total, buf.drop frameHeaderLen, UInt32.not_le.1 h⟩

/-- The frame as its sender made it. -/
def Frame.bytes (f : Frame) : Bytes := makeFrame f.msgId f.seq f.total f.payload

/-- The sizes a receiver puts up with. -/
def Frame.Fits (f : Frame) : Prop :=
  f.total ≤ maxReassemblyChunks ∧ f.payload.length ≤ maxFramePayload

@[simp] theorem length_makeFrame (msgId seq total : UInt32) (payload : Bytes) :
    (makeFrame msgId seq total payload).length = frameHeaderLen + payload.length := by
  simp only [makeFrame, List.length_append, length_toBE, List.length_cons, List.length_nil,
    frameHeaderLen]

theorem drop_makeFrame (msgId seq total : UInt32) (payload : Bytes) :
    (makeFrame msgId seq total payload).drop frameHeaderLen = payload := rfl

theorem beU32_msgId (msgId seq total : UInt32) (payload : Bytes) :
    beU32 (makeFrame msgId seq total payload) 2 = msgId := fromBE_toBE msgId

theorem beU32_seq (msgId seq total : UInt32) (payload : Bytes) :
    beU32 (makeFrame msgId seq total payload) 6 = seq := fromBE_toBE seq

theorem beU32_total (msgId seq total : UInt32) (payload : Bytes) :
    beU32 (makeFrame msgId seq total payload) 10 = total := fromBE_toBE total

theorem beU32_payloadLen (msgId seq total : UInt32) (payload : Bytes) :
    beU32 (makeFrame msgId seq total payload) 14 = payload.length.toUInt32 :=
  fromBE_toBE payload.length.toUInt32

/-- A frame that fits is read as it was made. -/
theorem parse_bytes (f : Frame) (h : f.Fits) : parseFrame f.bytes = .ok f := by
  obtain ⟨msgId, seq, total, payload, hseq⟩ := f
  obtain ⟨htotal, hlen⟩ := h
  have hlen' : payload.length.toUInt32.toNat = payload.length := by
    simp only [Nat.toUInt32, UInt32.toNat_ofNat']
    unfold maxFramePayload at hlen
    have : payload.length ≤ 64 * 1024 := hlen
    omega
  have hpos : ¬total < 1 := by
    rw [UInt32.lt_iff_toNat_lt] at hseq ⊢
    have : (1 : UInt32).toNat = 1 := rfl
    omega
  unfold parseFrame Frame.bytes
  simp only [length_makeFrame, beU32_msgId, beU32_seq, beU32_total, beU32_payloadLen, hlen',
    drop_makeFrame]
  rw [if_neg (by omega), if_neg (by simp [makeFrame]), if_neg (by simp [makeFrame]),
    if_neg (by rintro (h | h); exacts [hpos h, UInt32.not_le.2 h htotal]),
    dif_neg (UInt32.not_le.2 hseq), if_neg (Nat.not_lt.2 hlen), if_neg (by omega)]

theorem take_two {buf : Bytes} (h : 2 ≤ buf.length) :
    buf.take 2 = [buf.getD 0 0, buf.getD 1 0] := by
  match buf, h with
  | _ :: _ :: _, _ => rfl

theorem take_four {buf : Bytes} (h : 4 ≤ buf.length) :
    buf.take 4 = [buf.getD 0 0, buf.getD 1 0, buf.getD 2 0, buf.getD 3 0] := by
  match buf, h with
  | _ :: _ :: _ :: _ :: _, _ => rfl

theorem toBE_beU32 {buf : Bytes} {off : Nat} (h : off + 4 ≤ buf.length) :
    toBE (beU32 buf off) = (buf.drop off).take 4 := by
  rw [beU32, toBE_fromBE, take_four (by rw [List.length_drop]; omega)]
  simp only [List.getD_eq_getElem?_getD, List.getElem?_drop, Nat.add_zero]

theorem makeFrame_of_buf {buf : Bytes} (hlen : frameHeaderLen ≤ buf.length)
    (hmagic : buf.getD 0 0 = frameMagic) (hversion : buf.getD 1 0 = frameVersion)
    (hpayload : (beU32 buf 14).toNat = buf.length - frameHeaderLen) :
    makeFrame (beU32 buf 2) (beU32 buf 6) (beU32 buf 10) (buf.drop frameHeaderLen) = buf := by
  unfold frameHeaderLen at hlen hpayload ⊢
  have hword : (buf.drop 18).length.toUInt32 = beU32 buf 14 := by
    rw [List.length_drop, ← hpayload]
    exact UInt32.ofNat_toNat
  rw [makeFrame, hword, ← hmagic, ← hversion, ← take_two (by omega), toBE_beU32 (by omega),
    toBE_beU32 (by omega), toBE_beU32 (by omega), toBE_beU32 (by omega), ← List.take_add,
    ← List.take_add, ← List.take_add, ← List.take_add, List.take_append_drop]

/-- Only frames that fit are accepted, and each from its own bytes alone. -/
theorem parse_ok {buf : Bytes} {f : Frame} (h : parseFrame buf = .ok f) :
    f.Fits ∧ f.bytes = buf := by
  unfold parseFrame at h
  simp only at h
  split_ifs at h with hlen hmagic hversion htotal hseq hbig hpayload
  cases h
  rw [not_or] at htotal
  refine ⟨⟨UInt32.not_lt.1 htotal.2, ?_⟩, makeFrame_of_buf (Nat.not_lt.1 hlen)
    (not_not.1 hmagic) (not_not.1 hversion) (not_not.1 hpayload)⟩
  simp only [List.length_drop]
  have hsame := not_not.1 hpayload
  omega

end Lobbylink.Client.Framing
