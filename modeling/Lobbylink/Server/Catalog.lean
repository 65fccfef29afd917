import Lobbylink.Server.Slots
import Mathlib.Data.List.Nodup

/-! The map of live rooms. A room is in it from its creation to its destruction, under
its own code; a sweep takes out the expired rooms and leaves the others as they were. -/
namespace Lobbylink.Server.Catalog
open Protocol Lobby Registry Fanout Operations Effects Slots

structure Listed (m : Manager) : Prop where
  keys : (m.rooms.map Prod.fst).Nodup
  live : ∀ code ref, (code, ref) ∈ m.rooms ↔
    (m.room ref).destroyed = false ∧ (m.room ref).code = code

theorem Listed.only {m : Manager} (h : Listed m) {code : String} {ref ref' : Nat}
    (hmem : (code, ref) ∈ m.rooms) (hmem' : (code, ref') ∈ m.rooms) : ref = ref' :=
  congrArg Prod.snd (List.inj_on_of_nodup_map h.keys hmem hmem' rfl)

theorem lookup_mem {m : Manager} {code : String} {ref : Nat} (h : m.lookup code = some ref) :
    (code, ref) ∈ m.rooms := by
  unfold Manager.lookup at h
  generalize m.rooms = rooms at h
  induction rooms with
  | nil => cases h
  | cons e rest ih =>
    obtain ⟨code', ref'⟩ := e
    rw [List.lookup_cons] at h
    split at h
    · rename_i heq
      obtain rfl : code = code' := by simpa using heq
      cases h
      exact List.mem_cons_self
    · exact List.mem_cons_of_mem _ (ih h)

theorem lookup_none {m : Manager} {code : String} (h : m.lookup code = none) (ref : Nat) :
    (code, ref) ∉ m.rooms := by
  unfold Manager.lookup at h
  generalize m.rooms = rooms at h
  induction rooms with
  | nil => exact List.not_mem_nil
  | cons e rest ih =>
    obtain ⟨code', ref'⟩ := e
    rw [List.lookup_cons] at h
    split at h
    · cases h
    · rename_i heq
      intro hmem
      rcases List.mem_cons.1 hmem with he | hmem
      · cases he
        simp at heq
      · exact ih h hmem

theorem gcRoom_expired {now : Time} {sweep : Sweep} {e : String × Nat}
    (h : sweep.manager.limits.expired now (sweep.manager.room e.2) = true) :
    (gcRoom now sweep e).manager =
      { sweep.manager.setRoom e.2 (closed (sweep.manager.room e.2)) with
        rooms := sweep.manager.rooms.filter fun d => d.1 != e.1 } := by
  obtain ⟨out, heq, -⟩ := expireRoom_spec ⟨sweep.manager.room e.2, sweep.out⟩
  simp only [gcRoom, h, if_true, heq]

theorem gcRoom_kept {now : Time} {sweep : Sweep} {e : String × Nat}
    (h : ¬sweep.manager.limits.expired now (sweep.manager.room e.2) = true) :
    gcRoom now sweep e = sweep := if_neg h

/-- What the collector makes of the rooms of some entries. -/
structure Collected (now : Time) (entries : List (String × Nat)) (m m' : Manager) : Prop where
  limits : m'.limits = m.limits
  length : m'.heap.length = m.heap.length
  rooms : m'.rooms.Sublist m.rooms
  room : ∀ ref, m'.room ref =
    if ref ∈ entries.map Prod.snd ∧ m.limits.expired now (m.room ref) = true
    then closed (m.room ref) else m.room ref

theorem gcRoom_collected (now : Time) {sweep : Sweep} {e : String × Nat}
    (hlt : e.2 < sweep.manager.heap.length) :
    Collected now [e] sweep.manager (gcRoom now sweep e).manager := by
  by_cases hexp : sweep.manager.limits.expired now (sweep.manager.room e.2) = true
  · rw [gcRoom_expired hexp]
    refine ⟨rfl, by simp [Manager.setRoom], List.filter_sublist, fun ref => ?_⟩
    change (sweep.manager.setRoom e.2 (closed (sweep.manager.room e.2))).room ref = _
    rw [room_setRoom]
    by_cases href : ref = e.2
    · subst href
      simp [hlt, hexp]
    · simp [href]
  · rw [gcRoom_kept hexp]
    refine ⟨rfl, rfl, List.Sublist.refl _, fun ref => ?_⟩
    rw [if_neg]
    rintro ⟨href, hexp'⟩
    obtain rfl : ref = e.2 := by simpa using href
    exact hexp hexp'

theorem listed_gcRoom (now : Time) {sweep : Sweep} {e : String × Nat}
    (h : Listed sweep.manager) (he : e ∈ sweep.manager.rooms) :
    Listed (gcRoom now sweep e).manager ∧
      ∀ d ∈ sweep.manager.rooms, d.1 ≠ e.1 → d ∈ (gcRoom now sweep e).manager.rooms := by
  have hlive := (h.live e.1 e.2).1 he
  by_cases hexp : sweep.manager.limits.expired now (sweep.manager.room e.2) = true
  · have hroom := (gcRoom_collected now (destroyed_absent _ hlive.1)).room
    rw [gcRoom_expired hexp] at hroom ⊢
    refine ⟨⟨h.keys.sublist (List.filter_sublist.map Prod.fst), fun code ref => ?_⟩,
      fun d hd hne => List.mem_filter.2 ⟨hd, by simpa using hne⟩⟩
    rw [hroom]
    by_cases href : ref = e.2
    · subst href
      simp only [List.map_cons, List.map_nil, List.mem_singleton, hexp, and_self, if_true]
      constructor
      · intro hmem
        obtain ⟨hmem, hne⟩ := List.mem_filter.1 hmem
        have hcode := ((h.live code e.2).1 hmem).2
        simp [← hcode, hlive.2] at hne
      · rintro ⟨hdes, -⟩
        cases hdes
    · have hnot : ¬(ref ∈ [e].map Prod.snd ∧
          sweep.manager.limits.expired now (sweep.manager.room ref) = true) := by
        simp [href]
      rw [if_neg hnot, ← h.live]
      constructor
      · exact fun hmem => (List.mem_filter.1 hmem).1
      · intro hmem
        refine List.mem_filter.2 ⟨hmem, ?_⟩
        have hne : code ≠ e.1 := by
          rintro rfl
          exact href (h.only hmem he)
        simpa using hne
  · rw [gcRoom_kept hexp]
    exact ⟨h, fun d hd _ => hd⟩

theorem Collected.cons {now : Time} {e : String × Nat} {rest : List (String × Nat)}
    {m m₁ m₂ : Manager} (h : Collected now [e] m m₁) (h' : Collected now rest m₁ m₂)
    (hnot : e.2 ∉ rest.map Prod.snd) : Collected now (e :: rest) m m₂ where
  limits := h'.limits.trans h.limits
  length := h'.length.trans h.length
  rooms := h'.rooms.trans h.rooms
  room := by
    intro ref
    rw [h'.room, h.limits, h.room]
    by_cases href : ref = e.2
    · subst href
      simp [hnot]
    · have hold : ¬(ref ∈ [e].map Prod.snd ∧ m.limits.expired now (m.room ref) = true) := by
        simp [href]
      have hmem : ref ∈ (e :: rest).map Prod.snd ↔ ref ∈ rest.map Prod.snd := by
        simp [href]
      rw [if_neg hold]
      simp only [hmem]

theorem fold_collected (now : Time) (l : List (String × Nat)) (sweep : Sweep)
    (h : Listed sweep.manager) (hl : ∀ e ∈ l, e ∈ sweep.manager.rooms)
    (hkeys : (l.map Prod.fst).Nodup) :
    Listed (l.foldl (gcRoom now) sweep).manager ∧
      Collected now l sweep.manager (l.foldl (gcRoom now) sweep).manager := by
  induction l generalizing sweep with
  | nil => exact ⟨h, rfl, rfl, List.Sublist.refl _, fun ref => by simp⟩
  | cons e rest ih =>
    have he := hl e List.mem_cons_self
    obtain ⟨hnew, hkeys⟩ := List.nodup_cons.1 hkeys
    obtain ⟨hcat, hstay⟩ := listed_gcRoom now h he
    have hrest : ∀ d ∈ rest, d ∈ (gcRoom now sweep e).manager.rooms := by
      intro d hd
      apply hstay d (hl d (List.mem_cons_of_mem _ hd))
      intro hcode
      exact hnew (List.mem_map.2 ⟨d, hd, hcode⟩)
    obtain ⟨hcat', hcol⟩ := ih (gcRoom now sweep e) hcat hrest hkeys
    refine ⟨hcat', (gcRoom_collected now (destroyed_absent _ ((h.live _ _).1 he).1)).cons hcol ?_⟩
    intro hmem
    obtain ⟨d, hd, href⟩ := List.mem_map.1 hmem
    have hcode := ((h.live d.1 d.2).1 (hl d (List.mem_cons_of_mem _ hd))).2
    rw [href, ((h.live e.1 e.2).1 he).2] at hcode
    exact hnew (List.mem_map.2 ⟨d, hd, hcode.symm⟩)

/-- A sweep closes exactly the live rooms that have expired. -/
theorem gcLocked_collected (now : Time) {m : Manager} (h : Listed m) :
    Listed (gcLocked now m).manager ∧
      Collected now m.rooms m (gcLocked now m).manager :=
  fold_collected now m.rooms ⟨m, [], 0⟩ h (fun _ he => he) h.keys

theorem mem_refs {m : Manager} (h : Listed m) (ref : Nat) :
    ref ∈ m.rooms.map Prod.snd ↔ (m.room ref).destroyed = false := by
  constructor
  · intro hmem
    obtain ⟨⟨code, ref'⟩, he, rfl⟩ := List.mem_map.1 hmem
    exact ((h.live code ref').1 he).1
  · intro hdes
    exact List.mem_map.2 ⟨((m.room ref).code, ref), (h.live _ _).2 ⟨hdes, rfl⟩, rfl⟩

theorem gcLocked_room {now : Time} {m : Manager} (h : Listed m) (ref : Nat) :
    (gcLocked now m).manager.room ref =
      if (m.room ref).destroyed = false ∧ m.limits.expired now (m.room ref) = true
      then closed (m.room ref) else m.room ref := by
  rw [(gcLocked_collected now h).2.room]
  simp only [mem_refs h]

theorem listed_setRoom {m : Manager} {ref : Nat} {r : Room} (h : Listed m)
    (hr : SameRoom (m.room ref) r) : Listed (m.setRoom ref r) := by
  refine ⟨h.keys, fun code ref' => ?_⟩
  have hlive := h.live code ref'
  rw [room_setRoom]
  split_ifs with href
  · rw [href.1] at hlive ⊢
    rw [hr.destroyed, hr.code]
    exact hlive
  · exact hlive

theorem listed_create {m : Manager} {code : String} (appID : String) (opts : RoomOptions)
    (now : Time) (h : Listed m) (hnew : ∀ ref, (code, ref) ∉ m.rooms) :
    Listed (m.create (newRoom appID code opts now)).1 := by
  constructor
  · simp only [Manager.create, List.map_append, List.map_cons, List.map_nil]
    rw [List.nodup_append]
    refine ⟨h.keys, List.nodup_singleton _, ?_⟩
    rintro _ hmem _ hcode rfl
    obtain ⟨⟨code', ref⟩, he, rfl⟩ := List.mem_map.1 hmem
    obtain rfl := List.mem_singleton.1 hcode
    exact hnew ref he
  · intro code' ref
    rw [room_create]
    simp only [Manager.create, List.mem_append, List.mem_singleton, Prod.mk.injEq, h.live code' ref]
    by_cases href : ref = m.heap.length
    · have habsent := room_of_ge m (Nat.le_of_eq href.symm)
      rw [if_pos href, habsent]
      simp [href, newRoom, absent, eq_comm]
    · simp [href]

variable {sha256 : String → TokenHash} {env : Env}

theorem listed_reached {m : Manager} (h : Listed m) {op : Op} {ref : Nat} {a : Act}
    (hreach : Reaches m op ref a) : Listed (m.apply sha256 env op).manager := by
  obtain ⟨ref', r', hsame, heq⟩ := apply_reached sha256 env hreach
  rw [heq]
  exact listed_setRoom h hsame

theorem sweepFor_listed {m : Manager} (h : Listed m) (now : Time) :
    Listed (sweepFor now m).manager ∧ (sweepFor now m).manager.rooms.Sublist m.rooms ∧
      (sweepFor now m).manager.limits = m.limits := by
  by_cases hfull : m.limits.maxRooms ≤ m.rooms.length
  · rw [sweepFor_full hfull]
    obtain ⟨hcat, hcol⟩ := gcLocked_collected now h
    exact ⟨hcat, hcol.rooms, hcol.limits⟩
  · rw [sweepFor_room hfull]
    exact ⟨h, List.Sublist.refl _, rfl⟩

theorem listed_join {m : Manager} (h : Listed m) (appID code tok : String)
    (create : Option RoomOptions) (conn : Conn) :
    Listed (m.apply sha256 env (.join appID code tok create conn)).manager := by
  have hcase := join_joins sha256 env m appID code tok create conn
  cases hlook : m.lookup code with
  | some ref => exact listed_reached h (.join appID code tok create conn ref hlook)
  | none =>
    unfold Manager.apply
    simp only
    generalize Registry.join sha256 env appID code tok create conn m = res at hcase ⊢
    cases hcase with
    | found create ref hfound =>
      rw [hlook] at hfound
      cases hfound
    | missing => exact h
    | refused => exact (sweepFor_listed h env.now).1
    | created opts =>
      obtain ⟨hs, hsub, -⟩ := sweepFor_listed h env.now
      have hcat := listed_create appID opts env.now hs
        fun ref hmem => lookup_none hlook ref (hsub.subset hmem)
      obtain ⟨r', out, o, heq, hdoes, -⟩ := joinRoom_does sha256 env appID code tok conn
        ⟨(withRoom env.now m (newRoom appID code opts env.now)).room m.heap.length,
          (sweepFor env.now m).out⟩
      apply listed_setRoom hcat
      rw [heq]
      exact does_sameRoom hdoes

theorem listed_apply {m : Manager} (h : Listed m) (op : Op) :
    Listed (m.apply sha256 env op).manager := by
  cases op with
  | join appID code tok create conn => exact listed_join h appID code tok create conn
  | claim appID code playerID conn =>
    cases hlook : m.lookup code with
    | none =>
      simp only [Manager.apply, Registry.claim, hlook]
      exact h
    | some ref => exact listed_reached h (.claim appID code playerID conn ref hlook)
  | signal sess conn target payload => exact listed_reached h (.signal sess conn target payload)
  | leave sess conn => exact listed_reached h (.leave sess conn)
  | disconnect sess conn => exact listed_reached h (.disconnect sess conn)
  | touch sess conn => exact listed_reached h (.touch sess conn)
  | gc => exact (gcLocked_collected env.now h).1

theorem rooms_join {m : Manager} (h : Listed m) (appID code tok : String)
    (create : Option RoomOptions) (conn : Conn)
    (hmax : (m.rooms.length : Int) ≤ m.limits.maxRooms) :
    ((join sha256 env appID code tok create conn m).1.rooms.length : Int) ≤ m.limits.maxRooms := by
  have hcase := join_joins sha256 env m appID code tok create conn
  obtain ⟨-, hsub, hlim⟩ := sweepFor_listed h env.now
  have hle := hsub.length_le
  generalize join sha256 env appID code tok create conn m = res at hcase ⊢
  cases hcase with
  | found => exact hmax
  | missing => exact hmax
  | refused =>
    change ((sweepFor env.now m).manager.rooms.length : Int) ≤ _
    omega
  | created opts _ hspace =>
    rw [hlim] at hspace
    change (((sweepFor env.now m).manager.rooms ++ [_]).length : Int) ≤ _
    rw [List.length_append, List.length_singleton]
    omega

theorem rooms_apply {m : Manager} (h : Listed m) (op : Op)
    (hmax : (m.rooms.length : Int) ≤ m.limits.maxRooms) :
    ((m.apply sha256 env op).manager.rooms.length : Int) ≤ m.limits.maxRooms := by
  cases op with
  | join appID code tok create conn => exact rooms_join h appID code tok create conn hmax
  | claim appID code playerID conn =>
    simp only [Manager.apply, Registry.claim]
    cases m.lookup code with
    | none => exact hmax
    | some ref => exact hmax
  | signal | leave | disconnect | touch => exact hmax
  | gc =>
    have hle := (gcLocked_collected env.now h).2.rooms.length_le
    change ((gcLocked env.now m).manager.rooms.length : Int) ≤ _
    omega

end Lobbylink.Server.Catalog
