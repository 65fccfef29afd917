import Lobbylink.Client.Url

/-! The Java client's signaling URL, by indices. -/
namespace Lobbylink.Java.SignalingUrl
open Lib.Scan Client.Url

/-- `while (path.endsWith("/"))`. -/
def trimSlashes (path : Text) : Text :=
  if path.getLast? = some '/' then trimSlashes path.dropLast else path
termination_by path.length
decreasing_by
  have hne : path ≠ [] := by
    rintro rfl
    contradiction
  rw [List.length_dropLast]
  have := List.length_pos_iff.2 hne
  omega

/-- The part before the character, or everything. -/
def cutAt (d : Char) (rest : Text) : Text :=
  match indexOf [d] rest with
  | some i => rest.take i
  | none => rest

def splitAtSlash (rest : Text) : Text × Text :=
  match indexOf ['/'] rest with
  | some slash => (rest.take slash, rest.drop slash)
  | none => (rest, [])

def normalize (toLowerCase : Text → Text) (server : Text) : Except LobbyError Text :=
  match indexOf authorityMark server with
  | none => .error (invalid server)
  | some idx =>
    let scheme := toLowerCase (server.take idx)
    let rest := server.drop (idx + 3)
    let wsScheme :=
      if scheme = http then some ws
      else if scheme = ws then some ws
      else if scheme = https then some wss
      else if scheme = wss then some wss
      else none
    match wsScheme with
    | none => .error (unsupported scheme)
    | some wsScheme =>
      let rest := cutAt '#' rest
      let rest := cutAt '?' rest
      let (authority, path) := splitAtSlash rest
      if authority.isEmpty then .error (invalid server)
      else
        let path := trimSlashes path
        if wsPath <:+ path then .ok (wsScheme ++ authorityMark ++ authority ++ path)
        else .ok (wsScheme ++ authorityMark ++ authority ++ path ++ wsPath)

def defaultOrigin (wsUrl : Text) : Text :=
  let (scheme, rest) := match indexOf authorityMark wsUrl with
    | none => (wss, wsUrl)
    | some idx => (wsUrl.take idx, wsUrl.drop (idx + 3))
  let authority := cutAt '/' rest
  let httpScheme := if scheme = ws then http else https
  httpScheme ++ authorityMark ++ authority

theorem trimSlashes_eq (path : Text) : trimSlashes path = path.rdropWhile (· = '/') := by
  induction path using List.reverseRecOn with
  | nil =>
    rw [trimSlashes]
    rfl
  | append_singleton init c ih =>
    rw [trimSlashes, List.getLast?_concat, List.dropLast_concat, List.rdropWhile_concat, ih]
    by_cases hc : c = '/'
    · simp [hc]
    · simp [hc]

theorem cutAt_eq (d : Char) (rest : Text) : cutAt d rest = rest.takeWhile (· ≠ d) := by
  unfold cutAt
  rw [indexOf_takeWhile]
  cases indexOf [d] rest <;> rfl

theorem splitAtSlash_eq (rest : Text) :
    splitAtSlash rest = (rest.takeWhile (· ≠ '/'), rest.dropWhile (· ≠ '/')) :=
  authorityPath_eq rest

theorem switch_eq (scheme : Text) :
    (if scheme = http then some ws
      else if scheme = ws then some ws
      else if scheme = https then some wss
      else if scheme = wss then some wss
      else none) = wsScheme scheme := by
  unfold wsScheme
  rw [ite_or, ite_or]

theorem normalize_answers (toLowerCase : Text → Text) (server : Text) :
    Answers (normalize toLowerCase server) (socketUrl toLowerCase server) := by
  unfold normalize socketUrl authorityOf pathOf hierarchy socketPath
  rw [splitOnce_indexOf]
  cases indexOf authorityMark server with
  | none => exact .inr ⟨_, rfl, rfl, rfl⟩
  | some idx =>
    have hlen : authorityMark.length = 3 := rfl
    simp only [Option.map_some, Option.bind_some, Option.getD_some, switch_eq, hlen]
    cases wsScheme (toLowerCase (server.take idx)) with
    | none => exact .inr ⟨_, rfl, rfl, rfl⟩
    | some w =>
      simp only [Option.bind_some, cutAt_eq, rest_eq, splitAtSlash_eq, authority_takeWhile,
        path_dropWhile, trimSlashes_eq, List.isEmpty_iff]
      by_cases hauth : (server.drop (idx + 3)).takeWhile inAuthority = []
      · rw [if_pos hauth, if_pos hauth]
        exact .inr ⟨_, rfl, rfl, rfl⟩
      · rw [if_neg hauth, if_neg hauth]
        split_ifs
        · exact .inl ⟨_, rfl, rfl⟩
        · exact .inl ⟨_, rfl, by simp⟩

theorem defaultOrigin_eq (wsUrl : Text) : defaultOrigin wsUrl = Client.Url.defaultOrigin wsUrl := by
  unfold defaultOrigin Client.Url.defaultOrigin
  rw [splitOnce_indexOf]
  cases indexOf authorityMark wsUrl with
  | none => simp only [cutAt_eq, Option.map_none, Option.getD_none]
  | some idx =>
    have hlen : authorityMark.length = 3 := rfl
    simp only [cutAt_eq, Option.map_some, Option.getD_some, hlen]

end Lobbylink.Java.SignalingUrl
