import Mathlib.Algebra.Group.Nat.Defs
import Mathlib.Data.List.Basic

/-! Words as big-endian bytes, lists cut into pieces of one length, and pieces copied
into a buffer. -/
namespace Lobbylink.Lib.Bytes

def toBE (x : UInt32) : List UInt8 :=
  [UInt8.ofNat (x.toNat / 2 ^ 24), UInt8.ofNat (x.toNat / 2 ^ 16), UInt8.ofNat (x.toNat / 2 ^ 8),
    UInt8.ofNat x.toNat]

def fromBE (a b c d : UInt8) : UInt32 :=
  UInt32.ofNat (a.toNat * 2 ^ 24 + b.toNat * 2 ^ 16 + c.toNat * 2 ^ 8 + d.toNat)

@[simp] theorem length_toBE (x : UInt32) : (toBE x).length = 4 := rfl

theorem toNat_fromBE (a b c d : UInt8) :
    (fromBE a b c d).toNat = a.toNat * 2 ^ 24 + b.toNat * 2 ^ 16 + c.toNat * 2 ^ 8 + d.toNat := by
  have ha := a.toNat_lt
  have hb := b.toNat_lt
  have hc := c.toNat_lt
  have hd := d.toNat_lt
  rw [fromBE, UInt32.toNat_ofNat']
  omega

theorem fromBE_toBE (x : UInt32) :
    fromBE (UInt8.ofNat (x.toNat / 2 ^ 24)) (UInt8.ofNat (x.toNat / 2 ^ 16))
      (UInt8.ofNat (x.toNat / 2 ^ 8)) (UInt8.ofNat x.toNat) = x := by
  have hx := x.toNat_lt
  apply UInt32.toNat.inj
  rw [toNat_fromBE]
  simp only [UInt8.toNat_ofNat']
  omega

theorem toBE_fromBE (a b c d : UInt8) : toBE (fromBE a b c d) = [a, b, c, d] := by
  have ha := a.toNat_lt
  have hb := b.toNat_lt
  have hc := c.toNat_lt
  have hd := d.toNat_lt
  unfold toBE
  rw [toNat_fromBE]
  simp only [List.cons.injEq, and_true, ← UInt8.toNat_inj, UInt8.toNat_ofNat']
  omega

variable {α : Type}

/-- Piece `i` of a list cut into pieces of length `n`. -/
def piece (n : Nat) (l : List α) (i : Nat) : List α := (l.drop (i * n)).take n

theorem length_piece_le (n : Nat) (l : List α) (i : Nat) : (piece n l i).length ≤ n := by
  unfold piece
  rw [List.length_take]
  exact Nat.min_le_left _ _

theorem take_succ_piece (n : Nat) (l : List α) (k : Nat) :
    l.take ((k + 1) * n) = l.take (k * n) ++ piece n l k := by
  rw [Nat.succ_mul, List.take_add]
  rfl

/-- The first pieces are an initial part of the list. -/
theorem flatMap_pieces (n : Nat) (l : List α) (k : Nat) :
    (List.range k).flatMap (piece n l) = l.take (k * n) := by
  induction k with
  | zero => simp
  | succ k ih =>
    rw [List.range_succ, List.flatMap_append, ih, take_succ_piece]
    simp

theorem flatMap_pieces_all {n : Nat} {l : List α} {k : Nat} (h : l.length ≤ k * n) :
    (List.range k).flatMap (piece n l) = l := by
  rw [flatMap_pieces, List.take_of_length_le h]

def blit (out : List α) (off : Nat) (chunk : List α) : List α :=
  out.take off ++ chunk ++ out.drop (off + chunk.length)

/-- Copies the pieces one after the other, unless one is missing. -/
def fill : List (Option (List α)) → Nat → List α → Option (List α)
  | [], _, out => some out
  | none :: _, _, _ => none
  | some chunk :: rest, off, out => fill rest (off + chunk.length) (blit out off chunk)

theorem take_blit {out : List α} {off : Nat} {chunk : List α} (h : off ≤ out.length) :
    (blit out off chunk).take (off + chunk.length) = out.take off ++ chunk := by
  have hlen : (out.take off ++ chunk).length = off + chunk.length := by
    rw [List.length_append, List.length_take, Nat.min_eq_left h]
  unfold blit
  rw [← hlen, List.take_left']
  rfl

theorem length_blit {out : List α} {off : Nat} {chunk : List α}
    (h : off + chunk.length ≤ out.length) : (blit out off chunk).length = out.length := by
  unfold blit
  simp only [List.length_append, List.length_take, List.length_drop]
  omega

/-- A buffer of the right length ends up with all pieces in order. -/
theorem fill_all {chunks : List (Option (List α))} (hall : ∀ c ∈ chunks, c.isSome = true)
    {off : Nat} {out : List α} (hlen : out.length = off + (chunks.flatMap (·.getD [])).length) :
    fill chunks off out = some (out.take off ++ chunks.flatMap (·.getD [])) := by
  induction chunks generalizing off out with
  | nil =>
    have hoff : out.length ≤ off := Nat.le_of_eq hlen
    simp [fill, List.take_of_length_le hoff]
  | cons c rest ih =>
    cases c with
    | none => cases hall none List.mem_cons_self
    | some chunk =>
      simp only [List.flatMap_cons, Option.getD_some, List.length_append] at hlen
      rw [fill, ih (fun c hc => hall c (List.mem_cons_of_mem _ hc)), take_blit (by omega)]
      · simp only [List.flatMap_cons, Option.getD_some, List.append_assoc]
      · rw [length_blit (by omega)]
        omega

end Lobbylink.Lib.Bytes
