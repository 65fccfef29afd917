import Lobbylink.Java.Messages
import Lobbylink.System.Wire

/-! What `serde` takes for a field of the Rust client, the accessors of `Json` take for the
same. -/
namespace Lobbylink.Java.Accessors
open Json Messages System.Wire
open Client.Protocol (PlayerId WirePlayer SignalPayload)

variable {D : Type}

theorem utf16_inj {s t : String} : utf16 s = utf16 t ↔ s = t := by
  refine ⟨fun h => String.toList_inj.1 (Option.some.inj ?_), congrArg utf16⟩
  rw [← Lib.Utf16.decode_encode, ← Lib.Utf16.decode_encode]
  exact congrArg Lib.Utf16.decode h

theorem utf16_eq_units (key : String) (hkey : utf16 key = units key) {s : String} :
    utf16 s = units key ↔ s = key := by
  rw [← hkey, utf16_inj]

theorem string_eq {v : Value D} {s : String} (h : string v = some s) : v = .string (utf16 s) := by
  cases v with
  | string text =>
    obtain ⟨chars, hchars, rfl⟩ := Option.map_eq_some_iff.1 h
    rw [utf16, String.toList_ofList, Lib.Utf16.encode_decode hchars]
  | null | bool | long | double | list | map => cases h

variable (lib : JavaNumbers D) {m : Members D} {key : String}

theorem str_of_string {s : String} (h : (member m key).bind string = some s) :
    str lib m key = some (utf16 s) := by
  obtain ⟨v, hv, hs⟩ := Option.bind_eq_some_iff.1 h
  obtain rfl := string_eq hs
  have hget : get m (units key) = some (.string (utf16 s)) := hv
  simp only [str, hget, toText]

theorem strOr_of_string {s : String} (h : (member m key).bind string = some s) (default : String) :
    strOr lib m key default = utf16 s := by
  simp only [strOr, str_of_string lib h, Option.getD_some]

theorem bool_of_boolean {b : Bool} (h : (member m key).bind boolean = some b) (default : Bool) :
    bool m key default = b := by
  obtain ⟨v, hv, hb⟩ := Option.bind_eq_some_iff.1 h
  have hget : get m (units key) = some v := hv
  cases v with
  | bool b' =>
    unfold Messages.bool
    rw [hget]
    exact Option.some.inj hb
  | null | long | double | string | list | map => cases hb

theorem bool_of_booleanOr {b default : Bool} (h : booleanOr default (member m key) = some b) :
    bool m key default = b := by
  cases hv : member m key with
  | none =>
    have hget : get m (units key) = none := hv
    rw [hv] at h
    unfold Messages.bool
    rw [hget]
    exact Option.some.inj h
  | some v => exact bool_of_boolean (by rw [hv]; rw [hv] at h; exact h) default

theorem intVal_of_playerId {p : PlayerId} (h : (member m key).bind playerId = some p)
    (default : Int) : intVal lib m key default = p := by
  obtain ⟨v, hv, hp⟩ := Option.bind_eq_some_iff.1 h
  have hget : get m (units key) = some v := hv
  cases v with
  | long n =>
    simp only [playerId] at hp
    split_ifs at hp with hrange
    simp only [intVal, hget]
    obtain rfl := Option.some.inj hp
    rw [Int64.toInt_toInt32, Int.bmod_eq_of_le (by omega) (by omega)]
    exact (Int.toNat_of_nonneg hrange.1).symm
  | null | bool | double | string | list | map => cases hp

theorem asArray_of_players {l : List WirePlayer} (h : (member m key).bind players = some l) :
    ∃ vs, (get m (units key)).bind asArray = some vs ∧ vs.mapM wirePlayer = some l := by
  obtain ⟨v, hv, hl⟩ := Option.bind_eq_some_iff.1 h
  have hget : get m (units key) = some v := hv
  cases v with
  | list vs => exact ⟨vs, by rw [hget]; rfl, hl⟩
  | null | bool | long | double | string | map => cases hl

theorem members_of_wirePlayer {v : Value D} {p : WirePlayer} (h : wirePlayer v = some p) :
    ∃ o, asObject v = some o ∧ intVal lib o "id" (-1) = p.id ∧
      bool o "occupied" false = p.occupied ∧ bool o "connected" false = p.connected := by
  cases v with
  | map o =>
    simp only [wirePlayer, members, Option.bind_eq_bind, Option.bind_some,
      Option.bind_eq_some_iff] at h
    obtain ⟨id, hid, occupied, hoccupied, connected, hconnected, hp⟩ := h
    obtain rfl := Option.some.inj hp
    exact ⟨o, rfl, intVal_of_playerId lib (Option.bind_eq_some_iff.2 hid) _,
      bool_of_booleanOr hoccupied, bool_of_booleanOr hconnected⟩
  | null | bool | long | double | string | list => cases h

end Lobbylink.Java.Accessors
