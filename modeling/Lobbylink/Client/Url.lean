import Lobbylink.Lib.Scan

/-! The signaling URL of a server: http(s) becomes ws(s), and the path ends in `/ws`. -/
namespace Lobbylink.Client.Url
open Lib.Scan

abbrev Text := List Char

structure LobbyError where
  code : String
  message : Text
  deriving DecidableEq

def invalid (server : Text) : LobbyError :=
  ⟨"invalid-server-url", "invalid server URL: ".toList ++ server⟩

def unsupported (scheme : Text) : LobbyError :=
  ⟨"invalid-server-url", "unsupported scheme ".toList ++ scheme ++ ": in server URL".toList⟩

def http : Text := ['h', 't', 't', 'p']
def https : Text := ['h', 't', 't', 'p', 's']
def ws : Text := ['w', 's']
def wss : Text := ['w', 's', 's']
def authorityMark : Text := [':', '/', '/']
def wsPath : Text := ['/', 'w', 's']

def toAsciiLowercase (c : Char) : Char :=
  if 'A' ≤ c ∧ c ≤ 'Z' then Char.ofNat (c.toNat + 32) else c

/-- The scheme of the socket, from the lower-case scheme of the server. -/
def wsScheme (scheme : Text) : Option Text :=
  if scheme = http ∨ scheme = ws then some ws
  else if scheme = https ∨ scheme = wss then some wss
  else none

/-- `rest.find('/')` and the slices on both sides. -/
def authorityPath (rest : Text) : Text × Text :=
  match indexOf ['/'] rest with
  | some i => (rest.take i, rest.drop i)
  | none => (rest, [])

def signalingUrl (server : Text) : Except LobbyError Text :=
  match splitOnce authorityMark server with
  | none => .error (invalid server)
  | some (scheme, rest) =>
    let scheme := scheme.map toAsciiLowercase
    match wsScheme scheme with
    | none => .error (unsupported scheme)
    | some ws =>
      -- Drop fragment, then query.
      let rest := rest.takeWhile (· ≠ '#')
      let rest := rest.takeWhile (· ≠ '?')
      let (authority, path) := authorityPath rest
      if authority.isEmpty then .error (invalid server)
      else
        let path := path.rdropWhile (· = '/')
        if wsPath <:+ path then .ok (ws ++ authorityMark ++ authority ++ path)
        else .ok (ws ++ authorityMark ++ authority ++ path ++ wsPath)

def defaultOrigin (wsUrl : Text) : Text :=
  let (scheme, rest) := (splitOnce authorityMark wsUrl).getD (wss, wsUrl)
  let authority := rest.takeWhile (· ≠ '/')
  let httpScheme := if scheme = ws then http else https
  httpScheme ++ authorityMark ++ authority

def inAuthority (c : Char) : Bool := c ≠ '/' ∧ c ≠ '?' ∧ c ≠ '#'

def inPath (c : Char) : Bool := c ≠ '?' ∧ c ≠ '#'

def hierarchy (url : Text) : Text := ((splitOnce authorityMark url).map Prod.snd).getD []

def authorityOf (url : Text) : Text := (hierarchy url).takeWhile inAuthority

def pathOf (url : Text) : Text :=
  ((hierarchy url).dropWhile inAuthority).takeWhile inPath

/-- The path of the socket, without a slash at its end. -/
def socketPath (path : Text) : Text :=
  let path := path.rdropWhile (· = '/')
  if wsPath <:+ path then path else path ++ wsPath

/-- The URL that clients connect to, if there is one. -/
def socketUrl (lower : Text → Text) (server : Text) : Option Text :=
  (splitOnce authorityMark server).bind fun halves =>
    (wsScheme (lower halves.1)).bind fun ws =>
      if authorityOf server = [] then none
      else some (ws ++ authorityMark ++ authorityOf server ++ socketPath (pathOf server))

/-- The answer is the URL, or an error with the code for one that is invalid. -/
def Answers (answer : Except LobbyError Text) (url : Option Text) : Prop :=
  (∃ u, answer = .ok u ∧ url = some u) ∨
    ∃ e, answer = .error e ∧ e.code = "invalid-server-url" ∧ url = none

theorem rest_eq (rest : Text) :
    (rest.takeWhile (· ≠ '#')).takeWhile (· ≠ '?') = rest.takeWhile inPath := by
  rw [List.takeWhile_takeWhile]
  congr 1
  funext c
  simp [inPath]

theorem authorityPath_eq (rest : Text) :
    authorityPath rest = (rest.takeWhile (· ≠ '/'), rest.dropWhile (· ≠ '/')) := by
  unfold authorityPath
  rw [indexOf_takeWhile, indexOf_dropWhile]
  cases indexOf ['/'] rest <;> rfl

theorem authority_takeWhile (rest : Text) :
    (rest.takeWhile inPath).takeWhile (· ≠ '/') = rest.takeWhile inAuthority := by
  rw [List.takeWhile_takeWhile]
  congr 1
  funext c
  simp [inPath, inAuthority]

theorem path_dropWhile (rest : Text) :
    (rest.takeWhile inPath).dropWhile (· ≠ '/') =
      (rest.dropWhile inAuthority).takeWhile inPath := by
  induction rest with
  | nil => rfl
  | cons c rest ih =>
    by_cases hpath : inPath c = true
    · by_cases hslash : c = '/'
      · subst hslash
        rfl
      · have hauth : inAuthority c = true := by
          simp only [inPath, inAuthority, decide_eq_true_eq] at hpath ⊢
          exact ⟨hslash, hpath⟩
        rw [List.takeWhile_cons, if_pos hpath, List.dropWhile_cons, if_pos (by simpa using hslash),
          List.dropWhile_cons, if_pos hauth, ih]
    · have hauth : ¬inAuthority c = true := by
        simp only [inPath, inAuthority, decide_eq_true_eq] at hpath ⊢
        exact fun h => hpath h.2
      rw [List.takeWhile_cons, if_neg hpath, List.dropWhile_cons, if_neg hauth,
        List.takeWhile_cons, if_neg hpath]
      rfl

theorem hierarchy_eq {url scheme rest : Text}
    (h : splitOnce authorityMark url = some (scheme, rest)) : hierarchy url = rest := by
  simp [hierarchy, h]

theorem signalingUrl_answers (server : Text) :
    Answers (signalingUrl server) (socketUrl (List.map toAsciiLowercase) server) := by
  unfold signalingUrl socketUrl
  cases hsplit : splitOnce authorityMark server with
  | none => exact .inr ⟨_, rfl, rfl, rfl⟩
  | some halves =>
    obtain ⟨scheme, rest⟩ := halves
    simp only [Option.bind_some]
    cases hscheme : wsScheme (scheme.map toAsciiLowercase) with
    | none => exact .inr ⟨_, rfl, rfl, rfl⟩
    | some w =>
      simp only [Option.bind_some, rest_eq, authorityPath_eq, authority_takeWhile, path_dropWhile]
      unfold authorityOf pathOf socketPath
      simp only [hierarchy_eq hsplit, List.isEmpty_iff]
      by_cases hauth : rest.takeWhile inAuthority = []
      · rw [if_pos hauth, if_pos hauth]
        exact .inr ⟨_, rfl, rfl, rfl⟩
      · rw [if_neg hauth, if_neg hauth]
        split_ifs
        · exact .inl ⟨_, rfl, rfl⟩
        · exact .inl ⟨_, rfl, by simp⟩

theorem inAuthority_authorityOf (url : Text) : ∀ c ∈ authorityOf url, inAuthority c = true :=
  fun _ hc => List.mem_takeWhile_imp hc

theorem inPath_pathOf (url : Text) : ∀ c ∈ pathOf url, inPath c = true :=
  fun _ hc => List.mem_takeWhile_imp hc

theorem slash_of_inPath {c : Char} (hpath : inPath c = true) (hauth : inAuthority c = false) :
    c = '/' := by
  simp only [inPath, inAuthority, decide_eq_true_eq, decide_eq_false_iff_not] at hpath hauth
  by_contra hslash
  exact hauth ⟨hslash, hpath⟩

theorem pathOf_head (url : Text) : ∀ c ∈ (pathOf url).head?, c = '/' := by
  intro c hc
  have hmem : c ∈ pathOf url := List.mem_of_mem_head? hc
  refine slash_of_inPath (inPath_pathOf url c hmem) ?_
  unfold pathOf at hc
  cases hdrop : (hierarchy url).dropWhile inAuthority with
  | nil =>
    rw [hdrop] at hc
    cases hc
  | cons d rest =>
    have hstop := List.head?_dropWhile_not inAuthority (hierarchy url)
    rw [hdrop] at hc hstop
    rw [List.takeWhile_cons] at hc
    split_ifs at hc
    · cases Option.some.inj hc
      simpa using hstop
    · cases hc

theorem authority_stops {p tail : Text} (hp : ∀ c ∈ p.head?, c = '/')
    (htail : ∀ c ∈ tail.head?, inPath c = false) :
    ∀ c ∈ (p ++ tail).head?, inAuthority c = false := by
  intro c hc
  cases p with
  | nil =>
    have hquery : inPath c = false := htail c hc
    simp only [inPath, inAuthority, decide_eq_false_iff_not] at hquery ⊢
    exact fun h => hquery h.2
  | cons d rest =>
    have hd : d = '/' := hp d (by simp)
    have hcd : d = c := by simpa using hc
    rw [← hcd, hd]
    rfl

/-- A URL that is put together has the parts it was put together from. -/
theorem parts {scheme a p tail : Text} (hscheme : ':' ∉ scheme)
    (ha : ∀ c ∈ a, inAuthority c = true) (hp : ∀ c ∈ p, inPath c = true)
    (hhead : ∀ c ∈ p.head?, c = '/') (htail : ∀ c ∈ tail.head?, inPath c = false) :
    splitOnce authorityMark (scheme ++ authorityMark ++ (a ++ (p ++ tail))) =
      some (scheme, a ++ (p ++ tail)) ∧
    authorityOf (scheme ++ authorityMark ++ (a ++ (p ++ tail))) = a ∧
    pathOf (scheme ++ authorityMark ++ (a ++ (p ++ tail))) = p := by
  have hsplit : splitOnce authorityMark (scheme ++ authorityMark ++ (a ++ (p ++ tail))) =
      some (scheme, a ++ (p ++ tail)) := splitOnce_append hscheme _
  have hstop := authority_stops hhead htail
  refine ⟨hsplit, ?_, ?_⟩
  · unfold authorityOf
    rw [hierarchy_eq hsplit, takeWhile_append_stop ha hstop]
  · unfold pathOf
    rw [hierarchy_eq hsplit, dropWhile_append_stop ha hstop, takeWhile_append_stop hp htail]

theorem inPath_wsPath : ∀ c ∈ wsPath, inPath c = true := List.all_eq_true.1 (by decide)

theorem getLast_wsPath : wsPath.getLast (by decide) = 's' := rfl

theorem wsPath_suffix (path : Text) : wsPath <:+ socketPath path := by
  unfold socketPath
  simp only
  split_ifs with hsuffix
  · exact hsuffix
  · exact List.suffix_append _ _

theorem socketPath_head {path : Text} (h : ∀ c ∈ path.head?, c = '/') :
    ∀ c ∈ (socketPath path).head?, c = '/' := by
  intro c hc
  have htrim : ∀ c ∈ (path.rdropWhile (· = '/')).head?, c = '/' := by
    intro c hc
    obtain ⟨tail, htail⟩ := List.rdropWhile_prefix (· = '/') path
    apply h c
    rw [← htail, List.head?_append, hc]
    rfl
  unfold socketPath at hc
  simp only at hc
  split_ifs at hc
  · exact htrim c hc
  · rw [List.head?_append] at hc
    cases hnil : (path.rdropWhile (· = '/')).head? with
    | none =>
      rw [hnil] at hc
      exact (Option.some.inj hc).symm
    | some d =>
      rw [hnil] at hc
      exact htrim c (hnil.trans hc)

theorem socketPath_inPath {path : Text} (h : ∀ c ∈ path, inPath c = true) :
    ∀ c ∈ socketPath path, inPath c = true := by
  have htrim : ∀ c ∈ path.rdropWhile (· = '/'), inPath c = true := fun c hc =>
    h c ((List.rdropWhile_prefix _ path).subset hc)
  unfold socketPath
  simp only
  split_ifs
  · exact htrim
  · intro c hc
    rcases List.mem_append.1 hc with hc | hc
    · exact htrim c hc
    · exact inPath_wsPath c hc

theorem socketPath_socketPath (path : Text) : socketPath (socketPath path) = socketPath path := by
  obtain ⟨init, hinit⟩ := wsPath_suffix path
  have hlast : (socketPath path).rdropWhile (· = '/') = socketPath path := by
    rw [← hinit, List.rdropWhile_eq_self_iff]
    intro hne
    rw [List.getLast_append_of_ne_nil hne (by decide), getLast_wsPath]
    decide
  conv_lhs => rw [socketPath]
  simp only [hlast]
  rw [if_pos (wsPath_suffix path)]

theorem socketPath_slashes (path : Text) (n : Nat) :
    socketPath (path ++ List.replicate n '/') = socketPath path := by
  have htrim : (path ++ List.replicate n '/').rdropWhile (· = '/') =
      path.rdropWhile (· = '/') := by
    induction n with
    | zero => simp
    | succ n ih =>
      rw [List.replicate_succ', ← List.append_assoc, List.rdropWhile_concat_pos _ _ _ (by simp),
        ih]
  unfold socketPath
  rw [htrim]

theorem wsScheme_ws {scheme w : Text} (h : wsScheme scheme = some w) : w = ws ∨ w = wss := by
  unfold wsScheme at h
  split_ifs at h
  · exact .inl (Option.some.inj h).symm
  · exact .inr (Option.some.inj h).symm

theorem wsScheme_mem {scheme w : Text} (h : wsScheme scheme = some w) :
    scheme = http ∨ scheme = ws ∨ scheme = https ∨ scheme = wss := by
  unfold wsScheme at h
  split_ifs at h with hplain hsecure
  · exact hplain.elim .inl fun h => .inr (.inl h)
  · exact hsecure.elim (fun h => .inr (.inr (.inl h))) fun h => .inr (.inr (.inr h))

variable {lower : Text → Text} {server url : Text}

theorem socketUrl_parts (h : socketUrl lower server = some url) :
    ∃ w, (w = ws ∨ w = wss) ∧ authorityOf server ≠ [] ∧
      url = w ++ authorityMark ++ (authorityOf server ++ (socketPath (pathOf server) ++ [])) := by
  unfold socketUrl at h
  obtain ⟨halves, -, h⟩ := Option.bind_eq_some_iff.1 h
  obtain ⟨w, hw, h⟩ := Option.bind_eq_some_iff.1 h
  split_ifs at h with hauth
  refine ⟨w, wsScheme_ws hw, hauth, ?_⟩
  rw [← Option.some.inj h]
  simp

theorem colon_not_mem {w : Text} (hw : w = ws ∨ w = wss) : ':' ∉ w := by
  rcases hw with rfl | rfl <;> decide

theorem parts_socketUrl {w : Text} (hw : w = ws ∨ w = wss) (server : Text) :
    splitOnce authorityMark
        (w ++ authorityMark ++ (authorityOf server ++ (socketPath (pathOf server) ++ []))) =
      some (w, authorityOf server ++ (socketPath (pathOf server) ++ [])) ∧
    authorityOf (w ++ authorityMark ++ (authorityOf server ++ (socketPath (pathOf server) ++ []))) =
      authorityOf server ∧
    pathOf (w ++ authorityMark ++ (authorityOf server ++ (socketPath (pathOf server) ++ []))) =
      socketPath (pathOf server) :=
  parts (colon_not_mem hw) (inAuthority_authorityOf server)
    (socketPath_inPath (inPath_pathOf server)) (socketPath_head (pathOf_head server))
    fun c hc => by cases hc

theorem socketUrl_socketUrl (hlower : ∀ w, w = ws ∨ w = wss → wsScheme (lower w) = some w)
    (h : socketUrl lower server = some url) : socketUrl lower url = some url := by
  obtain ⟨w, hw, hauth, rfl⟩ := socketUrl_parts h
  obtain ⟨hsplit, hauthority, hpath⟩ := parts_socketUrl hw server
  unfold socketUrl
  rw [hsplit, Option.bind_some, hlower w hw, Option.bind_some, hauthority, hpath,
    socketPath_socketPath, if_neg hauth]
  simp

/-- Servers with the same kind of scheme, the same authority and the same path but for
slashes at its end have the same URL. -/
theorem socketUrl_congr {scheme scheme' a p tail tail' : Text} {n m : Nat}
    (hcolon : ':' ∉ scheme) (hcolon' : ':' ∉ scheme')
    (hkind : wsScheme (lower scheme) = wsScheme (lower scheme'))
    (ha : ∀ c ∈ a, inAuthority c = true) (hp : ∀ c ∈ p, inPath c = true)
    (hhead : ∀ c ∈ p.head?, c = '/') (htail : ∀ c ∈ tail.head?, inPath c = false)
    (htail' : ∀ c ∈ tail'.head?, inPath c = false) :
    socketUrl lower (scheme ++ authorityMark ++ (a ++ (p ++ List.replicate n '/' ++ tail))) =
      socketUrl lower
        (scheme' ++ authorityMark ++ (a ++ (p ++ List.replicate m '/' ++ tail'))) := by
  have hslashes : ∀ n, (∀ c ∈ p ++ List.replicate n '/', inPath c = true) ∧
      ∀ c ∈ (p ++ List.replicate n '/').head?, c = '/' := by
    intro n
    constructor
    · intro c hc
      rcases List.mem_append.1 hc with hc | hc
      · exact hp c hc
      · rw [List.eq_of_mem_replicate hc]
        rfl
    · intro c hc
      cases p with
      | nil => exact List.eq_of_mem_replicate (List.mem_of_mem_head? hc)
      | cons d rest => exact hhead c hc
  obtain ⟨hsplit, hauth, hpath⟩ := parts hcolon ha (hslashes n).1 (hslashes n).2 htail
  obtain ⟨hsplit', hauth', hpath'⟩ := parts hcolon' ha (hslashes m).1 (hslashes m).2 htail'
  unfold socketUrl
  rw [hsplit, hsplit', Option.bind_some, Option.bind_some, hkind, hauth, hauth', hpath, hpath',
    socketPath_slashes, socketPath_slashes]

theorem defaultOrigin_socketUrl {w : Text} (hw : w = ws ∨ w = wss) (server : Text) :
    defaultOrigin
        (w ++ authorityMark ++ (authorityOf server ++ (socketPath (pathOf server) ++ []))) =
      (if w = ws then http else https) ++ authorityMark ++ authorityOf server := by
  obtain ⟨hsplit, -, -⟩ := parts_socketUrl hw server
  unfold defaultOrigin
  simp only [hsplit, Option.getD_some]
  have hstop : ∀ c ∈ (socketPath (pathOf server) ++ []).head?, decide (c ≠ '/') = false := by
    intro c hc
    rw [List.append_nil] at hc
    simpa using socketPath_head (pathOf_head server) c hc
  rw [takeWhile_append_stop (fun c hc => ?_) hstop]
  have hauth := inAuthority_authorityOf server c hc
  simp only [inAuthority, decide_eq_true_eq] at hauth ⊢
  exact hauth.1

end Lobbylink.Client.Url
