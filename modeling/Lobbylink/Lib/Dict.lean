import Mathlib.Data.List.Nodup
import Mathlib.Data.List.Perm.Basic

/-! Lists of keys and values as maps. Where each key stands once, the order of the list
makes no difference. -/
namespace Lobbylink.Lib.Dict

variable {κ α : Type} {l m : List (κ × α)} {k : κ} {v : α}

def Distinct (l : List (κ × α)) : Prop := (l.map Prod.fst).Nodup

theorem distinct_nil : Distinct ([] : List (κ × α)) := List.nodup_nil

theorem Distinct.perm (h : Distinct l) (hperm : l.Perm m) : Distinct m :=
  (hperm.map Prod.fst).nodup_iff.1 h

theorem Distinct.map {β : Type} {f : κ × α → κ × β} (h : Distinct l) (hf : ∀ e, (f e).1 = e.1) :
    Distinct (l.map f) := by
  have hkeys : (l.map f).map Prod.fst = l.map Prod.fst := by simp [hf]
  unfold Distinct
  rw [hkeys]
  exact h

variable [BEq κ]

theorem lookup_concat_isSome {n : κ} (h : (l.lookup n).isSome) (k : κ) (v : α) :
    ((l ++ [(k, v)]).lookup n).isSome := by
  rw [List.lookup_append, Option.isSome_or, h]
  rfl

variable [LawfulBEq κ]

theorem mem_of_lookup (h : l.lookup k = some v) : (k, v) ∈ l := by
  obtain ⟨before, after, rfl, -⟩ := List.lookup_eq_some_iff.1 h
  simp

theorem lookup_eq_none : l.lookup k = none ↔ k ∉ l.map Prod.fst := by
  rw [List.lookup_eq_none_iff, List.mem_map]
  constructor
  · rintro h ⟨e, he, rfl⟩
    have hne := h e he
    simp at hne
  · intro h e he
    have hne : k ≠ e.1 := fun heq => h ⟨e, he, heq.symm⟩
    simpa using hne

theorem lookup_of_mem (h : Distinct l) (hmem : (k, v) ∈ l) : l.lookup k = some v := by
  induction l with
  | nil => cases hmem
  | cons e rest ih =>
    obtain ⟨hnot, hrest⟩ := List.nodup_cons.1 h
    rcases List.mem_cons.1 hmem with rfl | hmem
    · exact List.lookup_cons_self
    · have hne : k ≠ e.1 := by
        rintro rfl
        exact hnot (List.mem_map.2 ⟨_, hmem, rfl⟩)
      have hbeq : (k == e.1) = false := by simpa using hne
      rw [List.lookup_cons, hbeq]
      exact ih hrest hmem

theorem lookup_iff (h : Distinct l) : l.lookup k = some v ↔ (k, v) ∈ l :=
  ⟨mem_of_lookup, lookup_of_mem h⟩

theorem lookup_perm (h : Distinct l) (hperm : l.Perm m) (k : κ) : l.lookup k = m.lookup k := by
  refine Option.ext fun v => ?_
  rw [lookup_iff h, lookup_iff (h.perm hperm), hperm.mem_iff]

theorem distinct_concat (h : Distinct l) (hnew : l.lookup k = none) (v : α) :
    Distinct (l ++ [(k, v)]) := by
  unfold Distinct
  rw [List.map_append, List.map_cons, List.map_nil, ← List.concat_eq_append]
  exact h.concat (lookup_eq_none.1 hnew)

theorem lookup_concat (l : List (κ × α)) (k : κ) (v : α) :
    (l ++ [(k, v)]).lookup k = some ((l.lookup k).getD v) := by
  rw [List.lookup_append, List.lookup_cons_self]
  cases l.lookup k <;> rfl

def Related (R : α → α → Prop) (l m : List (κ × α)) : Prop :=
  ∃ n, l.Perm n ∧ List.Forall₂ (fun e e' => e.1 = e'.1 ∧ R e.2 e'.2) n m

section Related
variable {R : α → α → Prop}

omit [BEq κ] [LawfulBEq κ] in
theorem Related.refl (hR : ∀ v, R v v) (l : List (κ × α)) : Related R l l :=
  ⟨l, .refl l, List.forall₂_same.2 fun e _ => ⟨rfl, hR e.2⟩⟩

omit [BEq κ] [LawfulBEq κ] in
theorem Related.reverse (hR : ∀ v, R v v) (l : List (κ × α)) : Related R l l.reverse :=
  ⟨l.reverse, l.reverse_perm.symm, List.forall₂_same.2 fun e _ => ⟨rfl, hR e.2⟩⟩

omit [BEq κ] [LawfulBEq κ] in
theorem Related.distinct (h : Related R l m) (hl : Distinct l) : Distinct m := by
  obtain ⟨n, hperm, hall⟩ := h
  have hkeys : n.map Prod.fst = m.map Prod.fst := by
    clear hperm
    induction hall with
    | nil => rfl
    | cons he _ ih => rw [List.map_cons, List.map_cons, he.1, ih]
  have hn := hl.perm hperm
  unfold Distinct at hn ⊢
  rwa [← hkeys]

omit [BEq κ] [LawfulBEq κ] in
theorem forall₂_mem {β γ : Type} {P : β → γ → Prop} {xs : List β} {ys : List γ}
    (h : List.Forall₂ P xs ys) {y : γ} (hy : y ∈ ys) : ∃ x ∈ xs, P x y := by
  induction h with
  | nil => cases hy
  | cons hx _ ih =>
    rcases List.mem_cons.1 hy with rfl | hy
    · exact ⟨_, List.mem_cons_self, hx⟩
    · obtain ⟨x, hmem, hp⟩ := ih hy
      exact ⟨x, List.mem_cons_of_mem _ hmem, hp⟩

omit [BEq κ] [LawfulBEq κ] in
theorem Related.mem_right (h : Related R l m) (hmem : (k, v) ∈ m) : ∃ w, (k, w) ∈ l ∧ R w v := by
  obtain ⟨n, hperm, hall⟩ := h
  obtain ⟨⟨k', w⟩, hin, rfl, hR⟩ := forall₂_mem hall hmem
  exact ⟨w, hperm.mem_iff.2 hin, hR⟩

omit [BEq κ] [LawfulBEq κ] in
theorem Related.mem_left (h : Related R l m) (hmem : (k, v) ∈ l) : ∃ w, (k, w) ∈ m ∧ R v w := by
  obtain ⟨n, hperm, hall⟩ := h
  obtain ⟨⟨k', w⟩, hin, rfl, hR⟩ := forall₂_mem hall.flip (hperm.mem_iff.1 hmem)
  exact ⟨w, hin, hR⟩

/-- A key stands in both or in neither. -/
theorem Related.lookup (h : Related R l m) (hl : Distinct l) (k : κ) :
    (l.lookup k = none ∧ m.lookup k = none) ∨
      ∃ v w, l.lookup k = some v ∧ m.lookup k = some w ∧ R v w := by
  obtain ⟨n, hperm, hall⟩ := h
  rw [lookup_perm hl hperm]
  clear hperm
  induction hall with
  | nil => exact .inl ⟨rfl, rfl⟩
  | @cons e e' n m he _ ih =>
    obtain ⟨k', v⟩ := e
    obtain ⟨k'', w⟩ := e'
    obtain ⟨rfl, hR⟩ := he
    rw [List.lookup_cons, List.lookup_cons]
    cases hk : k == k' with
    | true => exact .inr ⟨v, w, rfl, rfl, hR⟩
    | false => exact ih

end Related

section Loops
variable {σ β ε : Type} {f : σ → κ × α → σ} {s s' : σ}

/-- A part of the state that only the round of one key changes. -/
theorem foldl_at (part : σ → β) (g : α → β → β)
    (hsame : ∀ s v, part (f s (k, v)) = g v (part s))
    (hother : ∀ s e, e.1 ≠ k → part (f s e) = part s) (h : Distinct l) (s : σ) :
    part (l.foldl f s) = ((l.lookup k).map (g · (part s))).getD (part s) := by
  induction l generalizing s with
  | nil => rfl
  | cons e rest ih =>
    obtain ⟨hnot, hrest⟩ := List.nodup_cons.1 h
    rw [List.foldl_cons, ih hrest]
    by_cases hk : k = e.1
    · subst hk
      obtain ⟨n, v⟩ := e
      rw [lookup_eq_none.2 hnot, List.lookup_cons_self]
      exact hsame s v
    · have hbeq : (k == e.1) = false := by simpa using hk
      rw [hother s e (Ne.symm hk), List.lookup_cons, hbeq]

omit [BEq κ] [LawfulBEq κ] in
/-- A loop whose rounds check their element and go on from what they make of it. -/
theorem foldlM_ok {γ : Type} {round : σ → γ → Except ε σ} {P : γ → Prop} {g : σ → γ → σ}
    {l : List γ} (h : ∀ e ∈ l, ∀ s s', round s e = .ok s' ↔ P e ∧ s' = g s e) (s s' : σ) :
    l.foldlM round s = .ok s' ↔ (∀ e ∈ l, P e) ∧ s' = l.foldl g s := by
  induction l generalizing s with
  | nil =>
    rw [List.foldlM_nil, List.foldl_nil]
    constructor
    · intro heq
      cases heq
      exact ⟨fun _ he => absurd he List.not_mem_nil, rfl⟩
    · rintro ⟨-, rfl⟩
      rfl
  | cons e rest ih =>
    obtain ⟨hfirst, hrest⟩ := List.forall_mem_cons.1 h
    rw [List.foldlM_cons, List.foldl_cons, List.forall_mem_cons]
    cases hround : round s e with
    | error err =>
      constructor
      · intro heq
        cases heq
      · rintro ⟨⟨he, -⟩, -⟩
        rw [(hfirst s _).2 ⟨he, rfl⟩] at hround
        cases hround
    | ok m =>
      obtain ⟨he, rfl⟩ := (hfirst s m).1 hround
      exact (ih hrest (g s e)).trans (by simp [he])

end Loops

end Lobbylink.Lib.Dict
