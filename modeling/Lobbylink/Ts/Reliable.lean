import Lobbylink.Lib.Bytes
import Mathlib.Data.Nat.Cast.Defs

/-! The reliable channel of the TypeScript client. Its numbers are doubles, which
hold the integers here exactly; a missing chunk is `undefined`. -/
namespace Lobbylink.Ts.Reliable
open Lib.Bytes

abbrev Bytes := List UInt8

def frameMagic : Nat := 0x4C
def frameVersion : Nat := 0x01
def frameHeaderLen : Nat := 18
def chunkPayload : Nat := 16 * 1024
def maxFramePayload : Nat := 64 * 1024
def maxReliableMessage : Nat := 16 * 1024 * 1024
def maxReassemblyChunks : Nat := 4096
def reassemblyTimeoutMs : Nat := 30000

/-- `v >>> 0`. -/
def toUint32 (v : Nat) : Nat := v % 2 ^ 32

/-- The bytes that `dv.setUint8` writes. -/
def setUint8 (v : Nat) : Bytes := [UInt8.ofNat v]

/-- The bytes that `dv.setUint32` writes. -/
def setUint32 (v : Nat) : Bytes :=
  [UInt8.ofNat (v / 2 ^ 24), UInt8.ofNat (v / 2 ^ 16), UInt8.ofNat (v / 2 ^ 8), UInt8.ofNat v]

def getUint8 (buf : Bytes) (off : Nat) : Nat := (buf.getD off 0).toNat

def getUint32 (buf : Bytes) (off : Nat) : Nat :=
  getUint8 buf off * 2 ^ 24 + getUint8 buf (off + 1) * 2 ^ 16 + getUint8 buf (off + 2) * 2 ^ 8 +
    getUint8 buf (off + 3)

def makeFrame (msgId seq total : Nat) (payload : Bytes) : Bytes :=
  setUint8 frameMagic ++ setUint8 frameVersion ++ setUint32 (toUint32 msgId) ++
    setUint32 (toUint32 seq) ++ setUint32 (toUint32 total) ++
    setUint32 (toUint32 payload.length) ++ payload

structure ParsedFrame where
  msgId : Nat
  seq : Nat
  total : Nat
  payload : Bytes

def parseFrame (buf : Bytes) : Except String ParsedFrame :=
  if buf.length < frameHeaderLen then .error "frame shorter than header"
  else if getUint8 buf 0 ≠ frameMagic then .error "bad frame magic"
  else if getUint8 buf 1 ≠ frameVersion then .error "unsupported frame version"
  else
    let msgId := getUint32 buf 2
    let seq := getUint32 buf 6
    let total := getUint32 buf 10
    let payloadLen := getUint32 buf 14
    if total < 1 ∨ total > maxReassemblyChunks then .error "bad frame total"
    else if seq ≥ total then .error "frame seq out of range"
    else if payloadLen > maxFramePayload then .error "frame payload too large"
    else if payloadLen ≠ buf.length - frameHeaderLen then
      .error "frame payload length mismatch"
    else .ok ⟨msgId, seq, total, buf.drop frameHeaderLen⟩

/-- `Math.ceil(a / b)`; the quotient by a power of two is exact. -/
def ceilDiv (a b : Nat) : Nat := if a % b = 0 then a / b else a / b + 1

/-- `bytes.subarray(first, last)`. -/
def subarray (bytes : Bytes) (first last : Nat) : Bytes := (bytes.drop first).take (last - first)

/-- The frames of `sendReliableNow`, for the message id it has taken from the link. -/
def sendReliableNow (msgId : Nat) (bytes : Bytes) : List Bytes :=
  let total := max 1 (ceilDiv bytes.length chunkPayload)
  (List.range total).map fun seq =>
    let start := seq * chunkPayload
    makeFrame msgId seq total (subarray bytes start (min (start + chunkPayload) bytes.length))

variable {τ : Type}

structure Reassembly (τ : Type) where
  total : Nat
  chunks : List (Option Bytes)
  received : Nat
  bytes : Nat
  startedAt : τ

structure Reassembler (τ : Type) where
  inflight : Nat → Option (Reassembly τ)

def Reassembler.empty : Reassembler τ := ⟨fun _ => none⟩

/-- `inflight.set`, or `inflight.delete` with `none`. -/
def Reassembler.set (r : Reassembler τ) (msgId : Nat) (entry : Option (Reassembly τ)) :
    Reassembler τ :=
  ⟨fun id => if id = msgId then entry else r.inflight id⟩

def Reassembly.new (total : Nat) (now : τ) : Reassembly τ :=
  ⟨total, List.replicate total none, 0, 0, now⟩

def Reassembly.store (entry : Reassembly τ) (seq : Nat) (payload : Bytes) : Reassembly τ :=
  { entry with
    chunks := entry.chunks.set seq (some payload)
    received := entry.received + 1
    bytes := entry.bytes + payload.length }

/-- The message, once it is complete; the loop stops at a chunk that is undefined. -/
def Reassembler.finish (r : Reassembler τ) (msgId : Nat) (entry : Reassembly τ) :
    Reassembler τ × Option Bytes :=
  if entry.received < entry.total then (r.set msgId (some entry), none)
  else (r.set msgId none, fill entry.chunks 0 (List.replicate entry.bytes 0))

variable [Sub τ] [LT τ] [DecidableLT τ] [NatCast τ]

def Reassembler.prune (r : Reassembler τ) (now : τ) : Reassembler τ :=
  ⟨fun id => (r.inflight id).filter fun e => !decide (now - e.startedAt > (reassemblyTimeoutMs : τ))⟩

def Reassembler.entry (r : Reassembler τ) (frame : ParsedFrame) (now : τ) : Reassembly τ :=
  match r.inflight frame.msgId with
  | none => .new frame.total now
  | some entry => if entry.total ≠ frame.total then .new frame.total now else entry

def Reassembler.push (r : Reassembler τ) (frame : ParsedFrame) (now : τ) :
    Reassembler τ × Option Bytes :=
  let r := r.prune now
  let entry := r.entry frame now
  if (entry.chunks.getD frame.seq none).isNone then
    let entry := entry.store frame.seq frame.payload
    if entry.bytes > maxReliableMessage then (r.set frame.msgId none, none)
    else r.finish frame.msgId entry
  else r.finish frame.msgId entry

end Lobbylink.Ts.Reliable
