import Mathlib.Data.List.DropRight

/-! Taking what meets a predicate off both ends of a list. What is left starts and ends
with something else, and is all that can be left. -/
namespace Lobbylink.Lib.Trim

variable {α : Type} {p : α → Bool} {l m a b : List α}

def All (p : α → Bool) (l : List α) : Prop := ∀ c ∈ l, p c = true

theorem All.nil : All p [] := fun _ h => absurd h List.not_mem_nil

theorem all_cons {c : α} : All p (c :: l) ↔ p c = true ∧ All p l := List.forall_mem_cons

theorem all_append : All p (l ++ m) ↔ All p l ∧ All p m := by
  simp only [All, List.forall_mem_append]

def trim (p : α → Bool) (l : List α) : List α := (l.dropWhile p).rdropWhile p

structure Tight (p : α → Bool) (l : List α) : Prop where
  first : ∀ c ∈ l.head?, p c = false
  last : ∀ c ∈ l.getLast?, p c = false

theorem tight_append {c : α} (hfirst : ∀ c ∈ l.head?, p c = false) (hne : l ≠ [])
    (hc : p c = false) : Tight p (l ++ [c]) := by
  constructor
  · intro d hd
    rw [List.head?_append_of_ne_nil l hne] at hd
    exact hfirst d hd
  · intro d hd
    rw [List.getLast?_concat, Option.mem_some_iff] at hd
    exact hd ▸ hc

theorem rdropWhile_append (ha : All p a) (l : List α) : (l ++ a).rdropWhile p = l.rdropWhile p := by
  induction a using List.reverseRecOn with
  | nil => rw [List.append_nil]
  | append_singleton rest c ih =>
    obtain ⟨hrest, hc⟩ := all_append.1 ha
    rw [← List.append_assoc, List.rdropWhile_concat_pos p _ c (hc c (by simp)), ih hrest]

theorem rdropWhile_last (hl : ∀ c ∈ l.getLast?, p c = false) : l.rdropWhile p = l := by
  rw [List.rdropWhile_eq_self_iff]
  intro hne hp
  rw [hl (l.getLast hne) (by rw [List.getLast?_eq_some_getLast hne]; rfl)] at hp
  cases hp

theorem dropWhile_head (hl : ∀ c ∈ l.head?, p c = false) : l.dropWhile p = l := by
  cases l with
  | nil => rfl
  | cons c rest =>
    have hc : p c = false := hl c rfl
    simp [hc]

theorem trim_eq_nil (ha : All p a) : trim p a = [] := by
  unfold trim
  rw [List.dropWhile_eq_nil_iff.2 ha, List.rdropWhile_nil]

theorem trim_append (ha : All p a) (hl : Tight p l) (hb : All p b) : trim p (a ++ l ++ b) = l := by
  cases l with
  | nil => exact trim_eq_nil (all_append.2 ⟨all_append.2 ⟨ha, .nil⟩, hb⟩)
  | cons c rest =>
    have hhead : ∀ d ∈ (c :: rest ++ b).head?, p d = false := fun d hd => hl.first d hd
    unfold trim
    rw [List.append_assoc, List.dropWhile_append_of_pos ha, dropWhile_head hhead,
      rdropWhile_append hb, rdropWhile_last hl.last]

theorem trim_of_tight (hl : Tight p l) : trim p l = l := by
  simpa using trim_append All.nil hl All.nil

theorem trim_tight (p : α → Bool) (l : List α) : Tight p (trim p l) := by
  unfold trim
  constructor
  · intro c hc
    have hprefix := List.rdropWhile_prefix p (l := l.dropWhile p)
    obtain ⟨tail, htail⟩ := hprefix
    have hhead : c ∈ (l.dropWhile p).head? := by
      rw [← htail, List.head?_append_of_ne_nil _ (by rintro h; rw [h] at hc; cases hc)]
      exact hc
    have hne : l.dropWhile p ≠ [] := by
      intro h
      rw [h] at hhead
      cases hhead
    have hnot := List.head_dropWhile_not p hne
    rw [List.head?_eq_some_head hne, Option.mem_some_iff] at hhead
    rw [← hhead]
    exact hnot
  · intro c hc
    have hne : (l.dropWhile p).rdropWhile p ≠ [] := by
      intro h
      rw [h] at hc
      cases hc
    have hnot := List.rdropWhile_last_not p _ hne
    rw [List.getLast?_eq_some_getLast hne, Option.mem_some_iff] at hc
    rw [← hc]
    simpa using hnot

/-- What trimming takes away. -/
theorem trim_spec (p : α → Bool) (l : List α) :
    ∃ a b, All p a ∧ All p b ∧ l = a ++ trim p l ++ b := by
  refine ⟨l.takeWhile p, (l.dropWhile p).rtakeWhile p, ?_, ?_, ?_⟩
  · exact fun c hc => List.mem_takeWhile_imp hc
  · exact fun c hc => List.mem_rtakeWhile_imp hc
  · unfold trim
    rw [List.append_assoc, List.rdropWhile_append_rtakeWhile, List.takeWhile_append_dropWhile]

theorem token_split {t s : List α} (ht : Tight p t) (hne : t ≠ []) (ha : All p a) (hb : All p b)
    (h : a ++ l ++ b = t ++ s) : a = [] ∧ ∃ m, l = t ++ m ∧ s = m ++ b := by
  obtain ⟨first, rest, rfl⟩ := List.exists_cons_of_ne_nil hne
  have hnil : a = [] := by
    cases a with
    | nil => rfl
    | cons c tail =>
      have hc : c = first := (List.cons.inj h).1
      have hp := (all_cons.1 ha).1
      rw [hc, ht.first first rfl] at hp
      cases hp
  subst hnil
  rw [List.nil_append] at h
  refine ⟨rfl, ?_⟩
  rcases List.append_eq_append_iff.1 h with ⟨m, htoken, hmore⟩ | ⟨m, hlist, hrest⟩
  · cases List.eq_nil_or_concat m with
    | inl hm =>
      subst hm
      exact ⟨[], by simpa using htoken.symm, by simpa using hmore.symm⟩
    | inr hm =>
      obtain ⟨before, last, rfl⟩ := hm
      rw [List.concat_eq_append] at htoken hmore
      have hlast : last ∈ (first :: rest).getLast? := by
        rw [htoken, ← List.append_assoc, List.getLast?_concat]
        rfl
      have hp := hb last (by rw [hmore]; simp)
      rw [ht.last last hlast] at hp
      cases hp
  · exact ⟨m, hlist, hrest⟩

theorem trim_left (ha : All p a) (l : List α) : trim p (a ++ l) = trim p l := by
  unfold trim
  rw [List.dropWhile_append_of_pos ha]

theorem trim_right (hb : All p b) (l : List α) : trim p (l ++ b) = trim p l := by
  obtain ⟨a, c, ha, hc, heq⟩ := trim_spec p l
  have hboth : All p (c ++ b) := all_append.2 ⟨hc, hb⟩
  conv_lhs => rw [heq, List.append_assoc]
  exact trim_append ha (trim_tight p l) hboth

theorem trim_length_le (p : α → Bool) (l : List α) : (trim p l).length ≤ l.length := by
  obtain ⟨a, b, -, -, heq⟩ := trim_spec p l
  have hlength := congrArg List.length heq
  simp only [List.length_append] at hlength
  omega

theorem rdropWhile_spec (p : α → Bool) (l : List α) :
    ∃ b, All p b ∧ l = l.rdropWhile p ++ b :=
  ⟨l.rtakeWhile p, fun _ hc => List.mem_rtakeWhile_imp hc, (List.rdropWhile_append_rtakeWhile ..).symm⟩

theorem trim_rdropWhile (p : α → Bool) (l : List α) : trim p (l.rdropWhile p) = trim p l := by
  obtain ⟨b, hb, heq⟩ := rdropWhile_spec p l
  conv_rhs => rw [heq]
  exact (trim_right hb _).symm

/-- A tight start stays, and only the end is trimmed. -/
theorem trim_token {t : List α} (ht : Tight p t) (hne : t ≠ []) (s : List α) :
    trim p (t ++ s) = t ++ s.rdropWhile p := by
  obtain ⟨b, hb, heq⟩ := rdropWhile_spec p s
  conv_lhs => rw [heq, ← List.append_assoc, trim_right hb]
  refine trim_of_tight ⟨fun c hc => ?_, fun c hc => ?_⟩
  · rw [List.head?_append_of_ne_nil t hne] at hc
    exact ht.first c hc
  · by_cases hs : s.rdropWhile p = []
    · rw [hs, List.append_nil] at hc
      exact ht.last c hc
    · rw [List.getLast?_append_of_ne_nil _ hs] at hc
      have hnot := List.rdropWhile_last_not p s hs
      rw [List.getLast?_eq_some_getLast hs, Option.mem_some_iff] at hc
      rw [← hc]
      simpa using hnot

end Lobbylink.Lib.Trim
