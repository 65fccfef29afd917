import Lobbylink.Java.SignalingUrl

/-! The signaling URL in both clients. The Java client lower-cases a scheme by the rules
of its locale, which make no other letter one of those of a scheme. -/
namespace Lobbylink.System.Urls
open Lib.Scan Client.Url
open Java.SignalingUrl (normalize normalize_answers defaultOrigin_eq)

/-- What `toLowerCase` does in every locale. The letter `I` has a dotless lower-case
form in some of them. -/
structure LowerCases (toLowerCase : Text → Text) : Prop where
  plain : ∀ s, (∀ c ∈ s, c.toNat < 128 ∧ c ≠ 'I') → toLowerCase s = s.map toAsciiLowercase
  other : ∀ s, (∃ c ∈ s, 128 ≤ c.toNat ∨ c = 'I') → ∃ d ∈ toLowerCase s, d ∉ https ∧ d ∉ wss

theorem letters_of_scheme {scheme w : Text} (h : wsScheme scheme = some w) :
    ∀ c ∈ scheme, c ∈ https ∨ c ∈ wss := by
  rcases wsScheme_mem h with rfl | rfl | rfl | rfl <;>
    simp [https, http, wss, ws]

theorem wsScheme_none {scheme : Text} (h : ∃ d ∈ scheme, d ∉ https ∧ d ∉ wss) :
    wsScheme scheme = none := by
  obtain ⟨d, hd, hhttps, hwss⟩ := h
  cases hw : wsScheme scheme with
  | none => rfl
  | some w => exact absurd (letters_of_scheme hw d hd) (not_or.2 ⟨hhttps, hwss⟩)

theorem lower_other {c : Char} (h : 128 ≤ c.toNat ∨ c = 'I') :
    toAsciiLowercase c ∉ https ∧ toAsciiLowercase c ∉ wss := by
  rcases h with h | rfl
  · have hlarge : ¬c ≤ 'Z' := by
      intro hle
      have : c.toNat ≤ 90 := hle
      omega
    have hsame : toAsciiLowercase c = c := by
      unfold toAsciiLowercase
      rw [if_neg fun h => hlarge h.2]
    have hsmall : ∀ d ∈ https ++ wss, d.toNat < 128 := by simp [https, wss]
    rw [hsame]
    constructor
    · intro hmem
      exact absurd (hsmall c (List.mem_append_left _ hmem)) (Nat.not_lt.2 h)
    · intro hmem
      exact absurd (hsmall c (List.mem_append_right _ hmem)) (Nat.not_lt.2 h)
  · decide

theorem scheme_agree {toLowerCase : Text → Text} (h : LowerCases toLowerCase) (scheme : Text) :
    wsScheme (toLowerCase scheme) = wsScheme (scheme.map toAsciiLowercase) := by
  by_cases hplain : ∀ c ∈ scheme, c.toNat < 128 ∧ c ≠ 'I'
  · rw [h.plain scheme hplain]
  · obtain ⟨c, hc, hother⟩ : ∃ c ∈ scheme, 128 ≤ c.toNat ∨ c = 'I' := by
      by_contra hnone
      refine hplain fun c hc => ?_
      constructor
      · exact Nat.not_le.1 fun hlarge => hnone ⟨c, hc, .inl hlarge⟩
      · exact fun heq => hnone ⟨c, hc, .inr heq⟩
    rw [wsScheme_none (h.other scheme ⟨c, hc, hother⟩),
      wsScheme_none ⟨_, List.mem_map_of_mem hc, lower_other hother⟩]

theorem socketUrl_agree {toLowerCase : Text → Text} (h : LowerCases toLowerCase) (server : Text) :
    socketUrl toLowerCase server = socketUrl (List.map toAsciiLowercase) server := by
  unfold socketUrl
  congr 1
  funext halves
  rw [scheme_agree h]

theorem answers_iff {answer : Except LobbyError Text} {url : Option Text}
    (h : Answers answer url) (u : Text) : answer = .ok u ↔ url = some u := by
  rcases h with ⟨v, rfl, rfl⟩ | ⟨e, rfl, -, rfl⟩
  · simp
  · simp

/-- A scheme and its secure form, in letters of any case. -/
def Plain (scheme : Text) : Prop :=
  scheme.map toAsciiLowercase = http ∨ scheme.map toAsciiLowercase = ws

def Secure (scheme : Text) : Prop :=
  scheme.map toAsciiLowercase = https ∨ scheme.map toAsciiLowercase = wss

theorem plain_scheme {scheme : Text} (h : Plain scheme) :
    wsScheme (scheme.map toAsciiLowercase) = some ws := by
  unfold Plain at h
  unfold wsScheme
  rw [if_pos h]

theorem secure_scheme {scheme : Text} (h : Secure scheme) :
    wsScheme (scheme.map toAsciiLowercase) = some wss := by
  rcases h with h | h
  · rw [h]
    decide
  · rw [h]
    decide

theorem colon_free {scheme w : Text} (h : wsScheme (scheme.map toAsciiLowercase) = some w) :
    ':' ∉ scheme := by
  intro hmem
  have hletter := letters_of_scheme h _ (List.mem_map_of_mem hmem)
  revert hletter
  decide

/-- Two servers that differ only in the spelling of the scheme, in slashes at the end of
the path, and in the query and fragment. -/
inductive Variants : Text → Text → Prop where
  | mk {scheme scheme' authority path tail tail' : Text} {n m : Nat} :
      (Plain scheme ∧ Plain scheme') ∨ (Secure scheme ∧ Secure scheme') →
      (∀ c ∈ authority, inAuthority c = true) → (∀ c ∈ path, inPath c = true) →
      (∀ c ∈ path.head?, c = '/') → (∀ c ∈ tail.head?, inPath c = false) →
      (∀ c ∈ tail'.head?, inPath c = false) →
      Variants (scheme ++ authorityMark ++ (authority ++ (path ++ List.replicate n '/' ++ tail)))
        (scheme' ++ authorityMark ++ (authority ++ (path ++ List.replicate m '/' ++ tail')))

theorem socketUrl_variants {server server' : Text} (h : Variants server server') :
    socketUrl (List.map toAsciiLowercase) server =
      socketUrl (List.map toAsciiLowercase) server' := by
  cases h with
  | mk hkind ha hp hhead htail htail' =>
    rcases hkind with ⟨hs, hs'⟩ | ⟨hs, hs'⟩
    · have hw := plain_scheme hs
      have hw' := plain_scheme hs'
      exact socketUrl_congr (colon_free hw) (colon_free hw') (hw.trans hw'.symm) ha hp hhead htail
        htail'
    · have hw := secure_scheme hs
      have hw' := secure_scheme hs'
      exact socketUrl_congr (colon_free hw) (colon_free hw') (hw.trans hw'.symm) ha hp hhead htail
        htail'

theorem lower_ws {w : Text} (hw : w = ws ∨ w = wss) :
    wsScheme (w.map toAsciiLowercase) = some w := by
  rcases hw with rfl | rfl <;> decide

theorem not_mem_url {w a p : Text} (hw : w = ws ∨ w = wss)
    (ha : ∀ c ∈ a, inAuthority c = true) (hp : ∀ c ∈ p, inPath c = true) :
    ∀ c ∈ w ++ authorityMark ++ (a ++ (p ++ [])), c ≠ '?' ∧ c ≠ '#' := by
  have hscheme : ∀ c ∈ w ++ authorityMark, c ≠ '?' ∧ c ≠ '#' := by
    rcases hw with rfl | rfl <;> simp [ws, wss, authorityMark]
  intro c hc
  rw [List.append_nil] at hc
  rcases List.mem_append.1 hc with hc | hc
  · exact hscheme c hc
  · rcases List.mem_append.1 hc with hc | hc
    · have hauth := ha c hc
      simp only [inAuthority, decide_eq_true_eq] at hauth
      exact hauth.2
    · simpa [inPath] using hp c hc

/-- Both clients have the same URL for a server or none; it is a socket's, with the
server's authority, its own URL, and that of every variant of the server. -/
theorem urls_agree (toLowerCase : Text → Text) (hlower : LowerCases toLowerCase) :
    (∀ server, (∃ url, signalingUrl server = .ok url ∧ normalize toLowerCase server = .ok url) ∨
      ∃ e e', signalingUrl server = .error e ∧ normalize toLowerCase server = .error e' ∧
        e.code = "invalid-server-url" ∧ e'.code = "invalid-server-url") ∧
    (∀ server url, signalingUrl server = .ok url →
      (∃ w path, (w = ws ∨ w = wss) ∧
        url = w ++ authorityMark ++ (authorityOf server ++ path) ∧ authorityOf server ≠ [] ∧
        authorityOf url = authorityOf server ∧ pathOf url = path ∧ wsPath <:+ path ∧
        defaultOrigin url = (if w = ws then http else https) ++ authorityMark ++ authorityOf server ∧
        Java.SignalingUrl.defaultOrigin url = defaultOrigin url) ∧
      (∀ c ∈ url, c ≠ '?' ∧ c ≠ '#') ∧
      signalingUrl url = .ok url ∧ normalize toLowerCase url = .ok url) ∧
    ∀ server server', Variants server server' → ∀ url,
      (signalingUrl server = .ok url ↔ signalingUrl server' = .ok url) ∧
      (normalize toLowerCase server = .ok url ↔ normalize toLowerCase server' = .ok url) := by
  have hrust := fun server => answers_iff (signalingUrl_answers server)
  have hjava : ∀ server u, normalize toLowerCase server = .ok u ↔
      socketUrl (List.map toAsciiLowercase) server = some u := fun server u => by
    rw [answers_iff (normalize_answers toLowerCase server), socketUrl_agree hlower]
  refine ⟨fun server => ?_, fun server url h => ?_, fun server server' hvar url => ?_⟩
  · have hboth := normalize_answers toLowerCase server
    rw [socketUrl_agree hlower] at hboth
    rcases signalingUrl_answers server with ⟨u, hok, hu⟩ | ⟨e, herr, hcode, hnone⟩
    · exact .inl ⟨u, hok, (hjava server u).2 hu⟩
    · rcases hboth with ⟨v, -, hv⟩ | ⟨e', herr', hcode', -⟩
      · rw [hnone] at hv
        cases hv
      · exact .inr ⟨e, e', herr, herr', hcode, hcode'⟩
  · have hu := (hrust server url).1 h
    have hagain := socketUrl_socketUrl (fun w hw => lower_ws hw) hu
    obtain ⟨w, hw, hauth, rfl⟩ := socketUrl_parts hu
    obtain ⟨-, hauthority, hpath⟩ := parts_socketUrl hw server
    refine ⟨⟨w, socketPath (pathOf server), hw, by rw [List.append_nil], hauth, hauthority, hpath,
      wsPath_suffix _, defaultOrigin_socketUrl hw server, defaultOrigin_eq _⟩, ?_, (hrust _ _).2 hagain,
      (hjava _ _).2 hagain⟩
    exact not_mem_url hw (inAuthority_authorityOf server)
      (socketPath_inPath (inPath_pathOf server))
  · rw [hrust, hrust, hjava, hjava, socketUrl_variants hvar]
    exact ⟨Iff.rfl, Iff.rfl⟩

theorem lowerCases_ascii : LowerCases (List.map toAsciiLowercase) where
  plain := fun _ _ => rfl
  other := fun _ ⟨_, hc, hother⟩ => ⟨_, List.mem_map_of_mem hc, lower_other hother⟩

/-- `HTTPS://h///?q/ws` -/
def shouted : Text := ['H', 'T', 'T', 'P', 'S'] ++ authorityMark ++ ['h', '/', '/', '/', '?', 'q'] ++ wsPath

theorem urls_agree_shouted :
    normalize (List.map toAsciiLowercase) shouted = .ok (wss ++ authorityMark ++ ['h'] ++ wsPath) ∧
    signalingUrl (wss ++ authorityMark ++ ['h'] ++ wsPath) =
      .ok (wss ++ authorityMark ++ ['h'] ++ wsPath) := by
  obtain ⟨hsame, hurl, -⟩ := urls_agree (List.map toAsciiLowercase) lowerCases_ascii
  have hrust : signalingUrl shouted = .ok (wss ++ authorityMark ++ ['h'] ++ wsPath) := by decide
  obtain ⟨-, -, hagain, -⟩ := hurl _ _ hrust
  rcases hsame shouted with ⟨url, hok, hjava⟩ | ⟨e, e', herr, -⟩
  · cases hrust.symm.trans hok
    exact ⟨hjava, hagain⟩
  · cases hrust.symm.trans herr

end Lobbylink.System.Urls
