import Lobbylink.Config.Arrays
import Lobbylink.Lib.Dict
import Mathlib.Data.List.ModifyLast

/-! What a line can do to the parser, and what the parser keeps: each name and each key
stands once in its map, and the table at hand is there. -/
namespace Lobbylink.Config.Documents
open Lib.Scan Lib.Trim Lib.Dict Toml Arrays

variable {p p' : Parser} {raw name key : Text} {ls : List Text} {value : Value} {ahead : Nat}

theorem parseKeyValue_ok {line : Text} (h : parseKeyValue line ls = .ok (key, value, ahead)) :
    ∃ before after, line = before ++ '=' :: after ∧ splitOnce ['='] line = some (before, after) ∧
      trimSpace before = key ∧ validTOMLKey key = true ∧
      parseValue (trimSpace after) ls = .ok (value, ahead) := by
  unfold parseKeyValue at h
  cases hsplit : splitOnce ['='] line with
  | none =>
    rw [hsplit] at h
    cases h
  | some halves =>
    obtain ⟨before, after⟩ := halves
    have hline := splitOnce_eq hsplit
    rw [hsplit] at h
    simp only at h
    split_ifs at h with hkey hvalue harray
    · have hvalid : validTOMLKey (trimSpace before) = true := by simpa using hkey
      cases hparse : parseArray (trimSpace after) ls with
      | error e =>
        rw [hparse] at h
        cases h
      | ok result =>
        rw [hparse] at h
        cases h
        refine ⟨before, after, by simpa using hline, rfl, rfl, hvalid, ?_⟩
        unfold parseValue
        rw [if_pos harray, hparse]
    · have hvalid : validTOMLKey (trimSpace before) = true := by simpa using hkey
      cases hparse : parseScalar (trimSpace after) with
      | error e =>
        rw [hparse] at h
        cases h
      | ok result =>
        rw [hparse] at h
        cases h
        refine ⟨before, after, by simpa using hline, rfl, rfl, hvalid, ?_⟩
        unfold parseValue
        rw [if_neg harray, hparse]

inductive Takes (p : Parser) (ls : List Text) (line : Text) : Parser → Nat → Prop where
  | blank (hline : line = []) : Takes p ls line p 0
  | entry {name : Text} (hopen : ['[', '['] <+: line) (hend : [']', ']'] <:+ line)
      (hname : trimSpace (between 2 line) = name) (hvalid : validTOMLKey name = true) :
      Takes p ls line ⟨p.doc.addEntry name, [], some name⟩ 0
  | table {name : Text} (hopen : ['['] <+: line) (hone : ¬['[', '['] <+: line)
      (hend : [']'] <:+ line) (hname : trimSpace (between 1 line) = name)
      (hvalid : validTOMLKey name = true) (hnew : p.doc.tables.lookup name = none) :
      Takes p ls line ⟨{ p.doc with tables := p.doc.tables ++ [(name, [])] }, name, none⟩ 0
  | key {key : Text} {value : Value} {ahead : Nat} (hopen : ¬['['] <+: line)
      (hparse : parseKeyValue line ls = .ok (key, value, ahead))
      (hnew : p.dest.lookup key = none) : Takes p ls line (p.addKey key value) ahead

theorem arrayHeader_ok {line : Text} (h : p.arrayHeader line = .ok p')
    (hopen : ['[', '['] <+: line) : Takes p ls line p' 0 := by
  unfold Parser.arrayHeader at h
  simp only at h
  split_ifs at h with hend hvalid
  cases h
  exact .entry hopen hend rfl (by simpa using hvalid)

theorem tableHeader_ok {line : Text} (h : p.tableHeader line = .ok p')
    (hopen : ['['] <+: line) (hone : ¬['[', '['] <+: line) : Takes p ls line p' 0 := by
  unfold Parser.tableHeader at h
  simp only at h
  split_ifs at h with hend hvalid hnew
  cases h
  exact .table hopen hone hend rfl (by simpa using hvalid) (Option.not_isSome_iff_eq_none.1 hnew)

theorem takeLine_ok (h : p.takeLine raw ls = .ok (p', ahead)) :
    Takes p ls (trimSpace (stripComment raw)) p' ahead := by
  unfold Parser.takeLine at h
  simp only at h
  split_ifs at h with hline hopen hone
  · cases h
    exact .blank hline
  · cases hheader : p.arrayHeader (trimSpace (stripComment raw)) with
    | error fault =>
      rw [hheader] at h
      cases h
    | ok p'' =>
      rw [hheader] at h
      cases h
      exact arrayHeader_ok hheader hopen
  · cases hheader : p.tableHeader (trimSpace (stripComment raw)) with
    | error fault =>
      rw [hheader] at h
      cases h
    | ok p'' =>
      rw [hheader] at h
      cases h
      exact tableHeader_ok hheader hone hopen
  · cases hparse : parseKeyValue (trimSpace (stripComment raw)) ls with
    | error e =>
      rw [hparse] at h
      cases h
    | ok result =>
      obtain ⟨key, value, ahead'⟩ := result
      rw [hparse] at h
      simp only at h
      split_ifs at h with hnew
      cases h
      exact .key hone hparse (Option.not_isSome_iff_eq_none.1 hnew)

theorem parseLines_cons {line : Nat} {doc : Doc} (h : parseLines 0 line p (raw :: ls) = .ok doc) :
    ∃ p' ahead, p.takeLine raw ls = .ok (p', ahead) ∧
      parseLines ahead (line + 1) p' ls = .ok doc := by
  rw [parseLines] at h
  cases htake : p.takeLine raw ls with
  | error e =>
    rw [htake] at h
    cases h
  | ok result =>
    obtain ⟨p', ahead⟩ := result
    rw [htake] at h
    exact ⟨p', ahead, rfl, h⟩

theorem parse_invariant (Inv : Parser → Prop)
    (hstep : ∀ p raw ls p' ahead, Inv p → p.takeLine raw ls = .ok (p', ahead) → Inv p')
    {line skip : Nat} {doc : Doc} (hp : Inv p) (h : parseLines skip line p ls = .ok doc) :
    ∃ p', Inv p' ∧ p'.doc = doc := by
  induction ls generalizing skip line p with
  | nil =>
    rw [parseLines] at h
    cases h
    exact ⟨p, hp, rfl⟩
  | cons l rest ih =>
    cases skip with
    | succ skip => exact ih hp h
    | zero =>
      obtain ⟨p', ahead, htake, hrest⟩ := parseLines_cons h
      exact ih (hstep p l rest p' ahead hp htake) hrest

section Alter
variable {α : Type} {l : List (Text × α)} {f : α → α} {n : Text} {x : α}

theorem lookup_alter (l : List (Text × α)) (f : α → α) (name n : Text) :
    (alter name f l).lookup n = if n = name then (l.lookup n).map f else l.lookup n := by
  unfold alter
  induction l with
  | nil => simp
  | cons e rest ih =>
    obtain ⟨key, x⟩ := e
    rw [List.map_cons]
    by_cases hname : n = key
    · subst hname
      by_cases h : n = name
      · simp [h]
      · simp [h]
    · have hbeq : (n == key) = false := by simpa using hname
      by_cases h : key = name
      · simp only [h, if_true] at hbeq ⊢
        rw [List.lookup_cons, hbeq, List.lookup_cons, hbeq]
        exact ih
      · simp only [h, if_false]
        rw [List.lookup_cons, hbeq, List.lookup_cons, hbeq]
        exact ih

theorem lookup_alter_self (h : l.lookup name = some x) :
    (alter name f l).lookup name = some (f x) := by
  rw [lookup_alter, if_pos rfl, h, Option.map_some]

theorem lookup_alter_isSome : ((alter name f l).lookup n).isSome = (l.lookup n).isSome := by
  rw [lookup_alter]
  split_ifs with h
  · exact Option.isSome_map
  · rfl

theorem distinct_alter (h : Distinct l) : Distinct (alter name f l) := by
  refine h.map fun e => ?_
  split_ifs <;> rfl

theorem mem_alter {e : Text × α} (h : e ∈ alter name f l) :
    e ∈ l ∨ ∃ x, (name, x) ∈ l ∧ e = (name, f x) := by
  obtain ⟨⟨key, x⟩, hmem, rfl⟩ := List.mem_map.1 h
  by_cases hname : key = name
  · subst hname
    exact .inr ⟨x, hmem, by simp⟩
  · exact .inl (by simpa [hname] using hmem)

end Alter

structure Bound (t : Table) : Prop where
  distinct : Distinct t
  valid : ∀ e ∈ t, validTOMLKey e.1 = true

theorem bound_nil : Bound [] := ⟨distinct_nil, fun _ h => absurd h List.not_mem_nil⟩

theorem Bound.add {t : Table} (h : Bound t) (hnew : t.lookup key = none)
    (hvalid : validTOMLKey key = true) (value : Value) : Bound (t ++ [(key, value)]) where
  distinct := distinct_concat h.distinct hnew value
  valid := by
    intro e he
    rcases List.mem_append.1 he with he | he
    · exact h.valid e he
    · rw [List.mem_singleton.1 he]
      exact hvalid

theorem Bound.perm {t t' : Table} (h : Bound t) (hperm : t.Perm t') : Bound t' :=
  ⟨h.distinct.perm hperm, fun e he => h.valid e (hperm.mem_iff.2 he)⟩

structure Formed (doc : Doc) : Prop where
  tables : Distinct doc.tables
  arrays : Distinct doc.arrays
  table : ∀ e ∈ doc.tables, Bound e.2
  entry : ∀ e ∈ doc.arrays, ∀ t ∈ e.2, Bound t

def Placed (p : Parser) : Prop :=
  match p.arrayEntry with
  | some name => ∃ es, p.doc.arrays.lookup name = some (es ++ [p.dest])
  | none => p.doc.tables.lookup p.currentTable = some p.dest

structure Well (p : Parser) : Prop where
  formed : Formed p.doc
  placed : Placed p

theorem well_new : Well .new where
  formed :=
    { tables := List.nodup_singleton _
      arrays := distinct_nil
      table := fun e he => by
        rw [List.mem_singleton.1 he]
        exact bound_nil
      entry := fun _ he => absurd he List.not_mem_nil }
  placed := rfl

theorem addEntry_lookup (doc : Doc) (name : Text) :
    ∃ es, (doc.addEntry name).arrays.lookup name = some (es ++ [[]]) := by
  unfold Doc.addEntry
  cases h : doc.arrays.lookup name with
  | none =>
    simp only
    rw [lookup_concat, h]
    exact ⟨[], rfl⟩
  | some es =>
    simp only
    rw [lookup_alter_self h]
    exact ⟨es, rfl⟩

theorem Formed.addEntry {doc : Doc} (h : Formed doc) (name : Text) : Formed (doc.addEntry name) := by
  unfold Doc.addEntry
  cases hname : doc.arrays.lookup name with
  | none =>
    simp only
    refine ⟨h.tables, distinct_concat h.arrays hname _, h.table, fun e he t ht => ?_⟩
    rcases List.mem_append.1 he with he | he
    · exact h.entry e he t ht
    · rw [List.mem_singleton.1 he] at ht
      rw [List.mem_singleton.1 ht]
      exact bound_nil
  | some es =>
    have hdistinct : Distinct (alter name (· ++ [[]]) doc.arrays) := distinct_alter h.arrays
    refine ⟨h.tables, hdistinct, h.table, fun e he t ht => ?_⟩
    rcases mem_alter (f := (· ++ [[]])) he with he | ⟨x, hx, rfl⟩
    · exact h.entry e he t ht
    · rcases List.mem_append.1 ht with ht | ht
      · exact h.entry _ hx t ht
      · rw [List.mem_singleton.1 ht]
        exact bound_nil

theorem dest_entry {es : List Table} {t : Table} (doc : Doc) (current : Text)
    (h : doc.arrays.lookup name = some (es ++ [t])) : (Parser.mk doc current (some name)).dest = t := by
  unfold Parser.dest
  simp only [h, Option.bind_some, List.getLast?_concat, Option.getD_some]

theorem dest_table {t : Table} (doc : Doc) (current : Text)
    (h : doc.tables.lookup current = some t) : (Parser.mk doc current none).dest = t := by
  unfold Parser.dest
  simp only [h, Option.getD_some]

theorem addKey_placed (h : Placed p) (key : Text) (value : Value) :
    (p.addKey key value).dest = p.dest ++ [(key, value)] ∧ Placed (p.addKey key value) := by
  obtain ⟨doc, current, arrayEntry⟩ := p
  cases arrayEntry with
  | some name =>
    obtain ⟨es, hes⟩ := h
    have hlast := lookup_alter_self (f := List.modifyLast (· ++ [(key, value)])) hes
    rw [List.modifyLast_concat] at hlast
    have hdest := dest_entry { doc with
      arrays := alter name (List.modifyLast (· ++ [(key, value)])) doc.arrays } current hlast
    exact ⟨hdest, es, hdest ▸ hlast⟩
  | none =>
    have hplaced : doc.tables.lookup current = some (Parser.mk doc current none).dest := h
    have hlast := lookup_alter_self (f := (· ++ [(key, value)])) hplaced
    have hdest := dest_table { doc with
      tables := alter current (· ++ [(key, value)]) doc.tables } current hlast
    exact ⟨hdest, hlast.trans (congrArg some hdest.symm)⟩

theorem Well.addKey (h : Well p) (hnew : p.dest.lookup key = none)
    (hvalid : validTOMLKey key = true) (value : Value) : Well (p.addKey key value) := by
  refine ⟨?_, (addKey_placed h.placed key value).2⟩
  obtain ⟨doc, current, arrayEntry⟩ := p
  obtain ⟨hformed, hplaced⟩ := h
  cases arrayEntry with
  | some name =>
    obtain ⟨es, hes⟩ := hplaced
    refine ⟨hformed.tables, distinct_alter hformed.arrays, hformed.table, fun e he t ht => ?_⟩
    rcases mem_alter he with he | ⟨x, hx, rfl⟩
    · exact hformed.entry e he t ht
    · have hsame := lookup_of_mem hformed.arrays hx
      rw [hes] at hsame
      cases hsame
      have hmem := mem_of_lookup hes
      simp only [List.modifyLast_concat] at ht
      rcases List.mem_append.1 ht with ht | ht
      · exact hformed.entry _ hmem t (List.mem_append_left _ ht)
      · rw [List.mem_singleton.1 ht]
        exact (hformed.entry _ hmem _ (by simp)).add hnew hvalid value
  | none =>
    have hdest : doc.tables.lookup current = some (Parser.mk doc current none).dest := hplaced
    have hdistinct : Distinct (alter current (· ++ [(key, value)]) doc.tables) :=
      distinct_alter hformed.tables
    refine ⟨hdistinct, hformed.arrays, fun e he => ?_, hformed.entry⟩
    rcases mem_alter (f := (· ++ [(key, value)])) he with he | ⟨x, hx, rfl⟩
    · exact hformed.table e he
    · have hsame := lookup_of_mem hformed.tables hx
      rw [hdest] at hsame
      cases hsame
      exact (hformed.table _ hx).add hnew hvalid value

theorem well_step {ahead : Nat} (h : Well p) (htake : p.takeLine raw ls = .ok (p', ahead)) :
    Well p' := by
  cases takeLine_ok htake with
  | blank => exact h
  | entry =>
    rename_i name hopen hend hname hvalid
    obtain ⟨es, hes⟩ := addEntry_lookup p.doc name
    refine ⟨h.formed.addEntry name, es, ?_⟩
    rw [dest_entry _ _ hes]
    exact hes
  | table =>
    rename_i name hopen hone hend hname hvalid hnew
    have hlookup : (p.doc.tables ++ [(name, [])]).lookup name = some ([] : Table) := by
      rw [lookup_concat, hnew]
      rfl
    refine ⟨⟨distinct_concat h.formed.tables hnew _, h.formed.arrays, fun e he => ?_,
      h.formed.entry⟩, ?_⟩
    · rcases List.mem_append.1 he with he | he
      · exact h.formed.table e he
      · rw [List.mem_singleton.1 he]
        exact bound_nil
    · have hdest := dest_table { p.doc with tables := p.doc.tables ++ [(name, [])] } name hlookup
      exact hlookup.trans (congrArg some hdest.symm)
  | key _ hparse hnew =>
    obtain ⟨before, after, -, -, -, hvalid, -⟩ := parseKeyValue_ok hparse
    exact h.addKey hnew hvalid _

/-- Every document of the parser has each name once, and in each of its tables each key. -/
theorem parseTOML_formed {src : Text} {doc : Doc} (h : parseTOML src = .ok doc) : Formed doc := by
  obtain ⟨p, hp, rfl⟩ := parse_invariant Well (fun _ _ _ _ _ => well_step) well_new h
  exact hp.formed

end Lobbylink.Config.Documents
