import Lobbylink.Lib.Bytes
import Mathlib.Algebra.Group.Int.Defs
import Mathlib.Data.Nat.Cast.Defs

/-! The reliable channel of the Java client. Its words are read as longs and kept as
ints, so that half of the message ids are negative; a missing chunk is `null`. -/
namespace Lobbylink.Java.Reliable
open Lib.Bytes

/-- Bytes by their bits; those from 128 on are negative in Java. -/
abbrev Bytes := List UInt8

def magic : UInt8 := 0x4C
def version : UInt8 := 0x01
def headerLen : Int := 18
def chunkPayload : Int := 16 * 1024
def maxFramePayload : Int := 64 * 1024
def maxReliableMessage : Int := 16 * 1024 * 1024
def maxReassemblyChunks : Int := 4096
def timeoutMs : Nat := 30000

/-- The cast to `int`, which also ends its arithmetic. -/
def int (x : Int) : Int := (x + 2 ^ 31) % 2 ^ 32 - 2 ^ 31

/-- The bits of an `int` from bit `n` on, as `v >>> n`. -/
def ushr (v : Int) (n : Nat) : Nat := (v % 2 ^ 32).toNat >>> n

/-- The bytes that `putU32` writes. -/
def putU32 (v : Int) : Bytes :=
  [UInt8.ofNat (ushr v 24), UInt8.ofNat (ushr v 16), UInt8.ofNat (ushr v 8),
    UInt8.ofNat (ushr v 0)]

/-- `b[o] & 0xFF`. -/
def unsigned (b : Bytes) (o : Nat) : Nat := (b.getD o 0).toNat

/-- A `long`, never negative. -/
def getU32 (b : Bytes) (o : Nat) : Int :=
  ((unsigned b o <<< 24) ||| (unsigned b (o + 1) <<< 16) ||| (unsigned b (o + 2) <<< 8) |||
    unsigned b (o + 3) : Nat)

/-- With `len` bytes of the payload from `off` on. -/
def makeFrame (msgId seq total : Int) (payload : Bytes) (off len : Int) : Bytes :=
  [magic, version] ++ putU32 msgId ++ putU32 seq ++ putU32 total ++ putU32 len ++
    (payload.drop off.toNat).take len.toNat

def chunkCount (len : Int) : Int :=
  if len = 0 then 1 else (int (int (len + chunkPayload) - 1)).tdiv chunkPayload

structure Frame where
  msgId : Int
  seq : Int
  total : Int
  payload : Bytes

/-- The length of an array is an `int`. -/
def parse (buf : Bytes) : Except String Frame :=
  if (buf.length : Int) < headerLen then .error "frame shorter than header"
  else if buf.getD 0 0 ≠ magic then .error "bad frame magic"
  else if buf.getD 1 0 ≠ version then .error "unsupported frame version"
  else
    let msgId := getU32 buf 2
    let seq := getU32 buf 6
    let total := getU32 buf 10
    let payloadLen := getU32 buf 14
    if total < 1 ∨ total > maxReassemblyChunks then .error "bad frame total"
    else if seq ≥ total then .error "frame seq out of range"
    else if payloadLen > maxFramePayload then .error "frame payload too large"
    else if payloadLen ≠ buf.length - headerLen then .error "frame payload length mismatch"
    else .ok ⟨int msgId, int seq, int total, buf.drop headerLen.toNat⟩

/-- The frames of `sendOne`, for the message id it has taken from the link. -/
def sendOne (msgId : Int) (data : Bytes) : List Bytes :=
  let total := chunkCount data.length
  (List.range total.toNat).map fun (i : Nat) =>
    let seq : Int := i
    let start := int (seq * chunkPayload)
    let stop := min (int (start + chunkPayload)) data.length
    makeFrame msgId seq total data start (int (stop - start))

variable {τ : Type}

structure Entry (τ : Type) where
  total : Int
  chunks : List (Option Bytes)
  received : Int
  bytes : Int
  startedAtMs : τ

structure Reassembler (τ : Type) where
  inflight : Int → Option (Entry τ)

def Reassembler.empty : Reassembler τ := ⟨fun _ => none⟩

/-- `inflight.put`, or `inflight.remove` with `none`. -/
def Reassembler.put (r : Reassembler τ) (msgId : Int) (e : Option (Entry τ)) : Reassembler τ :=
  ⟨fun id => if id = msgId then e else r.inflight id⟩

def Entry.new (total : Int) (nowMs : τ) : Entry τ :=
  ⟨total, List.replicate total.toNat none, 0, 0, nowMs⟩

def Entry.store (e : Entry τ) (seq : Int) (payload : Bytes) : Entry τ :=
  { e with
    chunks := e.chunks.set seq.toNat (some payload)
    received := int (e.received + 1)
    bytes := e.bytes + payload.length }

/-- The message, once it is complete; a chunk that is null would end the copying. -/
def Reassembler.finish (r : Reassembler τ) (msgId : Int) (e : Entry τ) :
    Reassembler τ × Option Bytes :=
  if e.received < e.total then (r.put msgId (some e), none)
  else (r.put msgId none, fill e.chunks 0 (List.replicate (int e.bytes).toNat 0))

variable [Sub τ] [LT τ] [DecidableLT τ] [NatCast τ]

def Reassembler.prune (r : Reassembler τ) (nowMs : τ) : Reassembler τ :=
  ⟨fun id => (r.inflight id).filter fun e => !decide (nowMs - e.startedAtMs > (timeoutMs : τ))⟩

def Reassembler.entry (r : Reassembler τ) (frame : Frame) (nowMs : τ) : Entry τ :=
  match r.inflight frame.msgId with
  | none => .new frame.total nowMs
  | some e => if e.total ≠ frame.total then .new frame.total nowMs else e

def Reassembler.push (r : Reassembler τ) (frame : Frame) (nowMs : τ) :
    Reassembler τ × Option Bytes :=
  let r := r.prune nowMs
  let e := r.entry frame nowMs
  if (e.chunks.getD frame.seq.toNat none).isNone then
    let e := e.store frame.seq frame.payload
    if e.bytes > maxReliableMessage then (r.put frame.msgId none, none)
    else r.finish frame.msgId e
  else r.finish frame.msgId e

end Lobbylink.Java.Reliable
