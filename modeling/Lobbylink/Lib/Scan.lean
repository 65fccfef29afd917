import Mathlib.Data.List.DropRight

/-! Searching a list for a separator: by index, by cutting it in two, and by taking what
stands before it. The three agree, and joining undoes cutting. -/
namespace Lobbylink.Lib.Scan

variable {α : Type} [DecidableEq α]

def indexOf (sep : List α) : List α → Option Nat
  | [] => if sep = [] then some 0 else none
  | c :: rest => if sep <+: c :: rest then some 0 else (indexOf sep rest).map (· + 1)

def splitOnce (sep : List α) : List α → Option (List α × List α)
  | [] => if sep = [] then some ([], []) else none
  | c :: rest =>
    if sep <+: c :: rest then some ([], (c :: rest).drop sep.length)
    else (splitOnce sep rest).map fun halves => (c :: halves.1, halves.2)

theorem splitOnce_indexOf (sep l : List α) :
    splitOnce sep l = (indexOf sep l).map fun i => (l.take i, l.drop (i + sep.length)) := by
  induction l with
  | nil =>
    by_cases hsep : sep = []
    · simp [splitOnce, indexOf, hsep]
    · simp [splitOnce, indexOf, hsep]
  | cons c rest ih =>
    unfold splitOnce indexOf
    split_ifs with hhere
    · simp
    · rw [ih, Option.map_map, Option.map_map]
      congr 1
      funext i
      simp [Nat.add_right_comm]

theorem splitOnce_eq {sep l a b : List α} (h : splitOnce sep l = some (a, b)) :
    l = a ++ sep ++ b := by
  induction l generalizing a with
  | nil =>
    unfold splitOnce at h
    split_ifs at h with hsep
    cases h
    simp [hsep]
  | cons c rest ih =>
    unfold splitOnce at h
    split_ifs at h with hhere
    · cases h
      obtain ⟨tail, htail⟩ := hhere
      rw [← htail]
      simp
    · obtain ⟨⟨a', b'⟩, hrest, heq⟩ := Option.map_eq_some_iff.1 h
      cases heq
      simp [ih hrest]

/-- The cut is at the first separator if what stands before has nothing of its start. -/
theorem splitOnce_append {d : α} {sep a : List α} (h : d ∉ a) (b : List α) :
    splitOnce (d :: sep) (a ++ (d :: sep) ++ b) = some (a, b) := by
  induction a with
  | nil =>
    have hhere : d :: sep <+: d :: (sep ++ b) := by simp
    simp only [List.nil_append, List.cons_append, splitOnce, if_pos hhere]
    simp
  | cons c rest ih =>
    have hc : d ≠ c := fun heq => h (heq ▸ List.mem_cons_self)
    have hnot : ¬d :: sep <+: c :: (rest ++ (d :: sep) ++ b) := by
      rw [List.cons_prefix_cons]
      exact fun hp => hc hp.1
    simp only [List.cons_append, splitOnce] at hnot ⊢
    rw [if_neg hnot]
    have hrest := ih fun hmem => h (List.mem_cons_of_mem c hmem)
    rw [hrest, Option.map_some]

theorem splitOnce_none {d : α} {l : List α} (h : d ∉ l) : splitOnce [d] l = none := by
  induction l with
  | nil => rfl
  | cons c rest ih =>
    have hnot : ¬[d] <+: c :: rest := by
      rw [List.cons_prefix_cons]
      exact fun hp => List.ne_of_not_mem_cons h hp.1
    rw [splitOnce, if_neg hnot, ih (List.not_mem_of_not_mem_cons h), Option.map_none]

theorem indexOf_takeWhile (d : α) (l : List α) :
    l.takeWhile (· ≠ d) = ((indexOf [d] l).map l.take).getD l := by
  induction l with
  | nil => simp [indexOf]
  | cons c rest ih =>
    by_cases hc : c = d
    · simp [indexOf, hc]
    · have hnot : ¬[d] <+: c :: rest := by simp [List.cons_prefix_cons, Ne.symm hc]
      rw [List.takeWhile_cons, if_pos (by simp [hc]), ih, indexOf, if_neg hnot]
      cases indexOf [d] rest with
      | none => simp
      | some i => simp

theorem indexOf_dropWhile (d : α) (l : List α) :
    l.dropWhile (· ≠ d) = ((indexOf [d] l).map l.drop).getD [] := by
  induction l with
  | nil => simp [indexOf]
  | cons c rest ih =>
    by_cases hc : c = d
    · simp [indexOf, hc]
    · have hnot : ¬[d] <+: c :: rest := by simp [List.cons_prefix_cons, Ne.symm hc]
      rw [List.dropWhile_cons, if_pos (by simp [hc]), ih, indexOf, if_neg hnot]
      cases indexOf [d] rest with
      | none => simp
      | some i => simp

section Predicate
omit [DecidableEq α]

theorem takeWhile_append_stop {p : α → Bool} {a b : List α} (ha : ∀ c ∈ a, p c = true)
    (hb : ∀ c ∈ b.head?, p c = false) : (a ++ b).takeWhile p = a := by
  rw [List.takeWhile_append_of_pos ha]
  cases b with
  | nil => simp
  | cons c rest =>
    have hc : p c = false := hb c (by simp)
    simp [hc]

theorem dropWhile_append_stop {p : α → Bool} {a b : List α} (ha : ∀ c ∈ a, p c = true)
    (hb : ∀ c ∈ b.head?, p c = false) : (a ++ b).dropWhile p = b := by
  rw [List.dropWhile_append_of_pos ha]
  cases b with
  | nil => rfl
  | cons c rest =>
    have hc : p c = false := hb c (by simp)
    simp [hc]

end Predicate

end Lobbylink.Lib.Scan
