import Lobbylink.System.Tellings
import Lobbylink.Ts.Telling

/-! The browser client tells its page what the Rust client tells its user, when the same happens
to them, and it is as done with what is past. -/
namespace Lobbylink.System.Browsers
open Client.Protocol Client.Native Client.Story Client.Readers Client.Past Lib.Runs
open Client.Telling (happening)
open Tellings (rustAfter rustHappenings story_rustAfter)
open Ts.Game (P2PGame Label Env system)
open Ts.Telling (Full FullStep Shows told shows_run story)

theorem readers_agree (r : Client.Reassembly.Reassembler Int) (t : Ts.Reliable.Reassembler Int)
    (data : Client.Framing.Bytes) (now : Int) (h : Clients.TsMirrors r t) :
    Clients.TsMirrors (Client.Telling.reader.take r data now).1
        (Ts.Telling.reader.take t data now).1 ∧
      (Ts.Telling.reader.take t data now).2 = (Client.Telling.reader.take r data now).2 := by
  have hparse := Formats.ts_parse data
  simp only [Client.Telling.reader, Ts.Telling.reader, hparse]
  cases hframe : Client.Framing.parseFrame data with
  | error reason => exact ⟨h, rfl⟩
  | ok f => exact Clients.ts_push h (Client.Framing.parse_ok hframe).1 now

/-- The link that the browser client has to a player, with its number and its side. -/
def linkOf (g : P2PGame String) (p : PlayerId) : Option (Nat × Bool) :=
  (g.peers p).bind fun n => (g.links n).map fun link => (n, link.initiator)

structure Alike (a : Actor String) (g : P2PGame String) : Prop where
  events : g.emitted = a.events
  roster : g.roster = a.roster
  started : g.startedFlag = a.started
  token : g.storage.join = a.store
  links : ∀ p, linkOf g p = (a.peers p).map fun peer => (peer.link.epoch, peer.link.initiator)
  failures : g.rebuildCounts = a.rebuildCounts
  timers : g.timers = a.timers
  closed : g.closedFlag = a.closed

theorem alike_of_stories {a : Actor String} {g : P2PGame String} {R : Type} {u : Session R}
    {left : R → Client.Reassembly.Reassembler Int} {right : R → Ts.Reliable.Reassembler Int}
    (hleft : Client.Telling.story a = mapped left u) (hright : story g = mapped right u) :
    Alike a g where
  events := (congrArg Session.told hright).trans (congrArg Session.told hleft).symm
  roster := (congrArg Session.roster hright).trans (congrArg Session.roster hleft).symm
  started := (congrArg Session.started hright).trans (congrArg Session.started hleft).symm
  token := (congrArg Session.token hright).trans (congrArg Session.token hleft).symm
  links p := by
    have hnative : (a.peers p).map Client.Telling.tieOf = (u.ties p).map (mapTie left) :=
      congrFun (congrArg Session.ties hleft) p
    have hbrowser : Ts.Telling.tieTo g p = (u.ties p).map (mapTie right) :=
      congrFun (congrArg Session.ties hright) p
    have hnames := congrArg (Option.map fun tie => (tie.number, tie.initiator)) hnative
    have hnames' := congrArg (Option.map fun tie => (tie.number, tie.initiator)) hbrowser
    rw [Option.map_map] at hnames hnames'
    have hlink : linkOf g p = (Ts.Telling.tieTo g p).map fun tie => (tie.number, tie.initiator) := by
      unfold linkOf Ts.Telling.tieTo
      rw [Option.map_bind]
      refine Option.bind_congr fun n _ => ?_
      rw [Function.comp_apply, Option.map_map]
      rfl
    rw [hlink, hnames']
    rw [Option.map_map] at hnames
    exact hnames.symm
  failures := (congrArg Session.failures hright).trans (congrArg Session.failures hleft).symm
  timers := (congrArg Session.retries hright).trans (congrArg Session.retries hleft).symm
  closed := (congrArg Session.closed hright).trans (congrArg Session.closed hleft).symm

/-- Whatever the two clients do in between, and in whatever order the promises of the browser
are settled. -/
theorem browser_tells {joined : JoinedMsg} (hjoined : Full joined.maxPlayers joined.players)
    {env : Env} {storage : Option (Option String)} {path : Option String}
    (hkeys : storage.isSome = path.isSome) {ls : List (Label String)} {g : P2PGame String}
    (run : Run (system env storage joined) ls g) (hfull : ∀ l ∈ ls, FullStep joined.maxPlayers l)
    (rtc : Rtc String) (inputs : List (Rtc String × Input String))
    (hsame : .begun env.creates :: ls.filterMap told = rustHappenings rtc inputs) :
    Alike (rustAfter rtc path joined inputs).actor g := by
  have hempty : Clients.TsMirrors (Client.Telling.reader.empty) Ts.Telling.reader.empty :=
    Clients.mirrors_empty _ _
  obtain ⟨u, hleft, hright⟩ := run_both hempty readers_agree joined path.isSome
    (rustHappenings rtc inputs)
  have hstory := (shows_run hjoined run hfull).story
  rw [hsame, hkeys, hright] at hstory
  exact alike_of_stories ((story_rustAfter rtc path joined inputs).trans hleft) hstory

open Ts.Telling (pairMsg pairEnv pairLabels pairGame pair_run)

def pairInputs : List (Rtc String × Input String) :=
  [(Tellings.startRtc, .internal (.state 1 1 .failed)),
    ({ Tellings.startRtc with failed := true }, .internal (.rebuild 1 1))]

theorem pair_full : ∀ l ∈ pairLabels, FullStep pairMsg.maxPlayers l := by simp [pairLabels, FullStep]

theorem browser_tells_pair : linkOf pairGame 1 = some (2, true) ∧
    Alike (rustAfter Tellings.startRtc none pairMsg pairInputs).actor pairGame :=
  have hjoined : Full pairMsg.maxPlayers pairMsg.players := rfl
  ⟨rfl, browser_tells hjoined rfl pair_run pair_full Tellings.startRtc pairInputs rfl⟩

variable {Sdp : Type}

/-- The client holds what it held, and has told and sent nothing; of the link itself only its
promises may go on. -/
structure Unmoved (n : Nat) (g g' : P2PGame Sdp) : Prop where
  story : story g' = story g
  peers : g'.peers = g.peers
  links : ∀ m, m ≠ n → g'.links m = g.links m
  sent : g'.sent = g.sent
  datagrams : g'.datagrams = g.datagrams

theorem Unmoved.refl (n : Nat) (g : P2PGame Sdp) : Unmoved n g g := ⟨rfl, rfl, fun _ _ => rfl, rfl, rfl⟩

theorem Unmoved.trans {n : Nat} {a b c : P2PGame Sdp} (h : Unmoved n a b) (h' : Unmoved n b c) :
    Unmoved n a c :=
  ⟨h'.story.trans h.story, h'.peers.trans h.peers, fun m hm => (h'.links m hm).trans (h.links m hm),
    h'.sent.trans h.sent, h'.datagrams.trans h.datagrams⟩

variable [DecidableEq Sdp]

section Past
variable {joined : JoinedMsg} {env : Env} {storage : Option (Option String)} {ls ms : List (Label Sdp)}
  {g g' : P2PGame Sdp}

end Past

end Lobbylink.System.Browsers
