import Lobbylink.Client.Protocol
import Mathlib.Data.List.Basic

/-! The client's roster: one entry for each slot, built from a snapshot and then
updated message by message. -/
namespace Lobbylink.Client.Roster
open Protocol

structure PlayerInfo where
  id : PlayerId
  occupied : Bool
  connected : Bool
  deriving DecidableEq, Repr

/-- The body of the loop of `roster_from_snapshot`. -/
def applyWire (roster : List PlayerInfo) (p : WirePlayer) : List PlayerInfo :=
  roster.modify p.id fun slot => { slot with occupied := p.occupied, connected := p.connected }

def rosterFromSnapshot (maxPlayers : Nat) (players : List WirePlayer) : List PlayerInfo :=
  players.foldl applyWire ((List.range maxPlayers).map fun id => ⟨id, false, false⟩)

/-- What `handle_server_message` does to the roster. -/
def updateRoster {Sdp : Type} (maxPlayers : Nat) (roster : List PlayerInfo) :
    ServerMessage Sdp → List PlayerInfo
  | .playerJoined _ players => rosterFromSnapshot maxPlayers players
  | .playerLeft id reason =>
    match PlayerLeftReason.fromWire reason with
    | .explicitLeave =>
      roster.modify id fun slot => { slot with occupied := false, connected := false }
    | .disconnected => roster.modify id fun slot => { slot with connected := false }
  | .playerRejoined id _ | .playerReplaced id =>
    roster.modify id fun slot => { slot with occupied := true, connected := true }
  | _ => roster

/-- The roster after the messages of a transport, in the order they arrive. -/
def followRoster {Sdp : Type} (payloadOf : String → Option (SignalPayload Sdp)) (maxPlayers : Nat)
    (roster : List PlayerInfo) (msgs : List Server.Protocol.Msg) : List PlayerInfo :=
  (msgs.filterMap (decode payloadOf)).foldl (updateRoster maxPlayers) roster

/-- Occupied and connected; a slot outside the roster is neither. -/
def mark (roster : List PlayerInfo) (i : Nat) : Bool × Bool :=
  match roster[i]? with
  | none => (false, false)
  | some p => (p.occupied, p.connected)

theorem mark_modify (roster : List PlayerInfo) (f : PlayerInfo → PlayerInfo) (i j : Nat) :
    mark (roster.modify i f) j = match roster[j]? with
      | none => (false, false)
      | some p => if i = j then ((f p).occupied, (f p).connected) else (p.occupied, p.connected) := by
  unfold mark
  rw [List.getElem?_modify]
  cases roster[j]? with
  | none => rfl
  | some p => by_cases h : i = j <;> simp [h]

theorem mark_disconnect (roster : List PlayerInfo) (i j : Nat) :
    mark (roster.modify i fun slot => { slot with connected := false }) j =
      if j = i then ((mark roster j).1, false) else mark roster j := by
  rw [mark_modify]
  unfold mark
  cases roster[j]? with
  | none => simp
  | some p => by_cases h : i = j <;> simp [h, eq_comm]

theorem mark_leave (roster : List PlayerInfo) (i j : Nat) :
    mark (roster.modify i fun slot => { slot with occupied := false, connected := false }) j =
      if j = i then (false, false) else mark roster j := by
  rw [mark_modify]
  unfold mark
  cases roster[j]? with
  | none => simp
  | some p => by_cases h : i = j <;> simp [h, eq_comm]

theorem mark_attach (roster : List PlayerInfo) {i : Nat} (hi : i < roster.length) (j : Nat) :
    mark (roster.modify i fun slot => { slot with occupied := true, connected := true }) j =
      if j = i then (true, true) else mark roster j := by
  rw [mark_modify]
  unfold mark
  cases hj : roster[j]? with
  | none =>
    have hne : j ≠ i := by
      rintro rfl
      simp [hi] at hj
    simp [hne]
  | some p => by_cases h : i = j <;> simp [h, eq_comm]

theorem mark_wire (roster : List PlayerInfo) {p : WirePlayer} (hp : p.id < roster.length)
    (j : Nat) : mark (applyWire roster p) j =
      if j = p.id then (p.occupied, p.connected) else mark roster j := by
  unfold applyWire
  rw [mark_modify]
  unfold mark
  cases hj : roster[j]? with
  | none =>
    have hne : j ≠ p.id := by
      rintro rfl
      simp [hp] at hj
    simp [hne]
  | some q =>
    by_cases h : p.id = j
    · simp [h]
    · simp [h, Ne.symm h]

@[simp] theorem length_applyWire (roster : List PlayerInfo) (p : WirePlayer) :
    (applyWire roster p).length = roster.length := List.length_modify ..

theorem ids_modify (roster : List PlayerInfo) (i : Nat) {f : PlayerInfo → PlayerInfo}
    (hf : ∀ p, (f p).id = p.id) : (roster.modify i f).map (·.id) = roster.map (·.id) := by
  refine List.ext_getElem? fun j => ?_
  simp only [List.getElem?_map, List.getElem?_modify]
  cases roster[j]? with
  | none => rfl
  | some q => by_cases h : i = j <;> simp [h, hf]

theorem ids_applyWire (roster : List PlayerInfo) (p : WirePlayer) :
    (applyWire roster p).map (·.id) = roster.map (·.id) := ids_modify roster p.id fun _ => rfl

theorem ids_rosterFromSnapshot (maxPlayers : Nat) (players : List WirePlayer) :
    (rosterFromSnapshot maxPlayers players).map (·.id) = List.range maxPlayers := by
  have hempty : ((List.range maxPlayers).map fun id => PlayerInfo.mk id false false).map (·.id) =
      List.range maxPlayers := by
    rw [List.map_map]
    exact List.map_id _
  exact List.foldlRecOn (motive := fun roster => roster.map (·.id) = List.range maxPlayers) _ _
    hempty fun roster h p _ => (ids_applyWire roster p).trans h

@[simp] theorem length_rosterFromSnapshot (maxPlayers : Nat) (players : List WirePlayer) :
    (rosterFromSnapshot maxPlayers players).length = maxPlayers := by
  rw [← List.length_map (·.id), ids_rosterFromSnapshot, List.length_range]

/-- The entry of a snapshot for slot `j`, when its ids count up from `k`. -/
def entry (players : List WirePlayer) (k j : Nat) : Option WirePlayer :=
  if k ≤ j then players[j - k]? else none

theorem mark_foldWire (players : List WirePlayer) (roster : List PlayerInfo) (k : Nat)
    (hids : ∀ (n : Nat) (p : WirePlayer), players[n]? = some p → p.id = k + n)
    (hlen : k + players.length ≤ roster.length) (j : Nat) :
    mark (players.foldl applyWire roster) j = match entry players k j with
      | none => mark roster j
      | some p => (p.occupied, p.connected) := by
  induction players generalizing roster k with
  | nil => simp [entry]
  | cons p rest ih =>
    have hp : p.id = k := by simpa using hids 0 p rfl
    have hrest : ∀ n q, rest[n]? = some q → q.id = k + 1 + n := by
      intro n q hq
      rw [Nat.add_right_comm]
      exact hids (n + 1) q hq
    simp only [List.length_cons] at hlen
    have hlt : k < roster.length := by omega
    have hwire := mark_wire roster (p := p) (hp ▸ hlt) j
    rw [hp] at hwire
    rw [List.foldl_cons, ih (applyWire roster p) (k + 1) hrest (by rw [length_applyWire]; omega)]
    rcases Nat.lt_trichotomy j k with hj | rfl | hj
    · have h₁ : entry rest (k + 1) j = none := if_neg (by omega)
      have h₂ : entry (p :: rest) k j = none := if_neg (by omega)
      simp only [h₁, h₂]
      rw [hwire, if_neg (by omega)]
    · have h₁ : entry rest (j + 1) j = none := if_neg (by omega)
      have h₂ : entry (p :: rest) j j = some p := by simp [entry]
      simp only [h₁, h₂]
      rw [hwire, if_pos rfl]
    · have h : entry rest (k + 1) j = entry (p :: rest) k j := by
        have hsub : j - k = j - (k + 1) + 1 := by omega
        simp only [entry, if_pos (Nat.le_of_lt hj), hsub, List.getElem?_cons_succ]
        exact if_pos hj
      rw [h]
      cases entry (p :: rest) k j with
      | none => exact hwire.trans (if_neg (by omega))
      | some q => rfl

theorem mark_rosterFromSnapshot (players : List WirePlayer)
    (hids : ∀ (n : Nat) (p : WirePlayer), players[n]? = some p → p.id = n) (j : Nat) :
    mark (rosterFromSnapshot players.length players) j = match players[j]? with
      | none => (false, false)
      | some p => (p.occupied, p.connected) := by
  unfold rosterFromSnapshot
  rw [mark_foldWire players _ 0 (by simpa using hids) (by simp)]
  have hentry : entry players 0 j = players[j]? := if_pos (Nat.zero_le j)
  rw [hentry]
  cases hj : players[j]? with
  | some p => rfl
  | none =>
    have hge : players.length ≤ j := List.getElem?_eq_none_iff.1 hj
    simp [mark, hge]

theorem ids_updateRoster {Sdp : Type} (maxPlayers : Nat) (roster : List PlayerInfo)
    (msg : ServerMessage Sdp) (h : roster.map (·.id) = List.range maxPlayers) :
    (updateRoster maxPlayers roster msg).map (·.id) = List.range maxPlayers := by
  have hmodify : ∀ (id : PlayerId) (f : PlayerInfo → PlayerInfo), (∀ p, (f p).id = p.id) →
      (roster.modify id f).map (·.id) = List.range maxPlayers :=
    fun id f hf => (ids_modify roster id hf).trans h
  cases msg with
  | playerJoined => exact ids_rosterFromSnapshot ..
  | playerLeft id reason =>
    simp only [updateRoster]
    split
    · exact hmodify id _ fun _ => rfl
    · exact hmodify id _ fun _ => rfl
  | playerRejoined id | playerReplaced id => exact hmodify id _ fun _ => rfl
  | _ => exact h

end Lobbylink.Client.Roster
