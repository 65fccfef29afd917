import Mathlib.Data.List.Basic

/-! Queues in which some messages are marks. What a reader picks out of such a queue
is split at the first mark, for what it reads before, or at the last, for what it
has read by the time it has seen every mark. -/
namespace Lobbylink.Lib.Marked

variable {Message α : Type} (mark : Message → Bool) (pick : Message → Option α)

def sinceLast (queue : List Message) : List α :=
  queue.foldl (fun picked m => if mark m then [] else picked ++ (pick m).toList) []

def pastFirst : List Message → List α
  | [] => []
  | m :: rest => if mark m then rest.filterMap pick else pastFirst rest

variable {mark : Message → Bool} {pick : Message → Option α} {m : Message}
  {queue more : List Message}

theorem filterMap_cons_toList :
    (m :: queue).filterMap pick = (pick m).toList ++ queue.filterMap pick := by
  rw [List.filterMap_cons]
  cases pick m <;> rfl

/-- What was picked before counts only if no mark follows. -/
theorem sinceLast_from (picked : List α) (queue : List Message) :
    queue.foldl (fun picked m => if mark m then [] else picked ++ (pick m).toList) picked =
      if queue.any mark then sinceLast mark pick queue
      else picked ++ sinceLast mark pick queue := by
  induction queue generalizing picked with
  | nil => simp [sinceLast]
  | cons m rest ih =>
    have hstep : sinceLast mark pick (m :: rest) =
        if rest.any mark then sinceLast mark pick rest else
          (if mark m then [] else (pick m).toList) ++ sinceLast mark pick rest := by
      unfold sinceLast
      rw [List.foldl_cons, ih]
      rfl
    rw [List.foldl_cons, ih, List.any_cons, hstep]
    by_cases hm : mark m = true
    · simp [hm]
    · by_cases hr : rest.any mark = true <;> simp [hm, hr]

theorem sinceLast_cons : sinceLast mark pick (m :: queue) =
    if queue.any mark then sinceLast mark pick queue else
      (if mark m then [] else (pick m).toList) ++ sinceLast mark pick queue := by
  unfold sinceLast
  rw [List.foldl_cons, sinceLast_from]
  rfl

theorem sinceLast_append : sinceLast mark pick (queue ++ more) =
    if more.any mark then sinceLast mark pick more
    else sinceLast mark pick queue ++ sinceLast mark pick more := by
  unfold sinceLast
  rw [List.foldl_append, sinceLast_from]
  rfl

theorem sinceLast_sublist (queue : List Message) :
    (sinceLast mark pick queue).Sublist (queue.filterMap pick) := by
  induction queue with
  | nil => exact List.Sublist.refl _
  | cons m rest ih =>
    rw [sinceLast_cons, filterMap_cons_toList]
    split_ifs
    · exact ih.trans (List.sublist_append_right _ _)
    · exact ih.trans (List.sublist_append_right _ _)
    · exact (List.Sublist.refl _).append ih

theorem sinceLast_nil (h : queue.filterMap pick = []) : sinceLast mark pick queue = [] :=
  List.sublist_nil.1 (h ▸ sinceLast_sublist queue)

theorem pastFirst_nil (h : queue.filterMap pick = []) : pastFirst mark pick queue = [] := by
  induction queue with
  | nil => rfl
  | cons m rest ih =>
    rw [filterMap_cons_toList, List.append_eq_nil_iff] at h
    unfold pastFirst
    split_ifs
    · exact h.2
    · exact ih h.2

theorem pastFirst_append : pastFirst mark pick (queue ++ more) =
    pastFirst mark pick queue ++
      if queue.any mark then more.filterMap pick else pastFirst mark pick more := by
  induction queue with
  | nil => rfl
  | cons m rest ih =>
    by_cases hm : mark m = true
    · simp [pastFirst, hm]
    · have hne : mark m = false := by simpa using hm
      simp only [List.cons_append, pastFirst, hne, Bool.false_eq_true, if_false, ih,
        List.any_cons, Bool.false_or]

/-- Reading a message keeps the rest free of picks past the first mark. -/
theorem pastFirst_tail (h : pastFirst mark pick (m :: queue) = []) :
    pastFirst mark pick queue = [] := by
  unfold pastFirst at h
  split_ifs at h
  · exact pastFirst_nil h
  · exact h

end Lobbylink.Lib.Marked
