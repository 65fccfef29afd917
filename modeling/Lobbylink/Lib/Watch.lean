import Mathlib.Data.List.Infix

/-! Channels that hold one value, the last one sent. A receiver may miss values, and may
still look at one that has been replaced since. It sleeps until there is one later than
it has seen. -/
namespace Lobbylink.Lib.Watch

variable {α : Type}

/-- `past` are the values sent before `value`. -/
structure Channel (α : Type) where
  past : List α
  value : α

def Channel.new (value : α) : Channel α := ⟨[], value⟩

def Channel.history (c : Channel α) : List α := c.past ++ [c.value]

def Channel.version (c : Channel α) : Nat := c.past.length

def Channel.sendReplace (value : α) (c : Channel α) : Channel α := ⟨c.history, value⟩

/-- `d` is `c`, some values later. -/
def Channel.Leads (c d : Channel α) : Prop := c.history <+: d.history

/-- Each of these channels has come as far as it is in `ds`. -/
def Grows (cs ds : List (Channel α)) : Prop :=
  ∀ (i : Nat) (c : Channel α), cs[i]? = some c → ∃ d, ds[i]? = some d ∧ c.Leads d

variable {c d : Channel α} {cs ds es : List (Channel α)}

@[simp] theorem value_sendReplace (value : α) (c : Channel α) :
    (c.sendReplace value).value = value := rfl

@[simp] theorem history_new (value : α) : (Channel.new value).history = [value] := rfl

@[simp] theorem history_sendReplace (value : α) (c : Channel α) :
    (c.sendReplace value).history = c.history ++ [value] := rfl

/-- What was seen last is the value, or there is a later one. -/
theorem value_or_later {i : Nat} {v : α} (h : c.history[i]? = some v) :
    i < c.version ∨ c.value = v := by
  unfold Channel.history at h
  rcases Nat.lt_trichotomy i c.past.length with hi | rfl | hi
  · exact .inl hi
  · exact .inr (by simpa using h)
  · rw [List.getElem?_eq_none (by simp; omega)] at h
    cases h

theorem Channel.Leads.history {i : Nat} {v : α} (h : c.Leads d) (hv : c.history[i]? = some v) :
    d.history[i]? = some v := by
  obtain ⟨later, hlater⟩ := h
  have hi : i < c.history.length := (List.getElem?_eq_some_iff.1 hv).1
  rw [← hlater, List.getElem?_append_left hi, hv]

theorem grows_refl (cs : List (Channel α)) : Grows cs cs :=
  fun _ c hc => ⟨c, hc, List.prefix_refl _⟩

theorem Grows.trans (h : Grows cs ds) (h' : Grows ds es) : Grows cs es := by
  intro i c hc
  obtain ⟨d, hd, hcd⟩ := h i c hc
  obtain ⟨e, he, hde⟩ := h' i d hd
  exact ⟨e, he, List.IsPrefix.trans hcd hde⟩

theorem grows_append (cs : List (Channel α)) (c : Channel α) : Grows cs (cs ++ [c]) := by
  intro i d hd
  have hi : i < cs.length := (List.getElem?_eq_some_iff.1 hd).1
  exact ⟨d, by rw [List.getElem?_append_left hi, hd], List.prefix_refl _⟩

theorem grows_modify (cs : List (Channel α)) (j : Nat) (value : α) :
    Grows cs (cs.modify j (Channel.sendReplace value)) := by
  intro i c hc
  rw [List.getElem?_modify, hc]
  by_cases hij : j = i
  · exact ⟨c.sendReplace value, by simp [hij], List.prefix_append _ _⟩
  · exact ⟨c, by simp [hij], List.prefix_refl _⟩

end Lobbylink.Lib.Watch
