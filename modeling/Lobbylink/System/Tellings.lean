import Lobbylink.Client.Past
import Lobbylink.Client.Readers
import Lobbylink.Java.Telling
import Lobbylink.System.Clients

/-! The Rust client and the Java client tell their users the same, when the same happens to
them. -/
namespace Lobbylink.System.Tellings
open Client.Protocol Client.Native Client.Story Client.Readers Lib.Runs
open Java.Json (Value JString)
open Java.Messages (JavaNumbers Members)
open Java.Tasks (Label State Joined)
open Java.Telling (ReadableStep told slot event Shows)
open Client.Telling (happening story)

variable {D : Type}

theorem readers_agree (r : Client.Reassembly.Reassembler Int) (j : Java.Reliable.Reassembler Int)
    (data : Client.Framing.Bytes) (now : Int) (h : Clients.JavaMirrors r j) :
    Clients.JavaMirrors (Client.Telling.reader.take r data now).1
        (Java.Telling.reader.take j data now).1 ∧
      (Java.Telling.reader.take j data now).2 = (Client.Telling.reader.take r data now).2 := by
  have hparse := Formats.java_parse data
  simp only [Client.Telling.reader, Java.Telling.reader, hparse]
  cases hframe : Client.Framing.parseFrame data with
  | error reason => exact ⟨h, rfl⟩
  | ok f => exact Clients.java_push h (Client.Framing.parse_ok hframe).1 now

/-- What the actors of the two clients have in common. -/
structure Alike (g : Actor String) (a : Java.Tasks.Actor D) : Prop where
  events : a.events = g.events.map event
  roster : a.roster = g.roster.map slot
  started : a.startedFlag = g.started
  token : a.store = g.store.map Wire.utf16
  links : ∀ p : PlayerId, (a.linkTo p).map (fun link => (link.epoch, link.initiator)) =
    (g.peers p).map fun peer => (peer.link.epoch, peer.link.initiator)
  timers : a.timers = g.timers.map fun t => ((t.1 : Int), t.2.1, t.2.2)
  closed : a.closed = g.closed

theorem alike_of_shows {g : Actor String} {a : Java.Tasks.Actor D}
    {R : Type} {u : Session R} {left : R → Client.Reassembly.Reassembler Int}
    {right : R → Java.Reliable.Reassembler Int} (hstory : story g = mapped left u)
    (hshows : Shows a (mapped right u)) : Alike g a where
  events := by
    have htold : g.events = u.told := congrArg Session.told hstory
    rw [htold]
    exact congrArg Java.Telling.View.told hshows.view
  roster := by
    have hroster : g.roster = u.roster := congrArg Session.roster hstory
    rw [hroster]
    exact congrArg Java.Telling.View.roster hshows.view
  started := (congrArg Java.Telling.View.started hshows.view).trans
    (congrArg Session.started hstory).symm
  token := by
    have htoken : g.store = u.token := congrArg Session.token hstory
    rw [htoken]
    exact congrArg Java.Telling.View.token hshows.view
  links p := by
    have hleft : (g.peers p).map Client.Telling.tieOf = (u.ties p).map (mapTie left) :=
      congrFun (congrArg Session.ties hstory) p
    have hright : (a.linkTo p).map Java.Telling.tieOf = (u.ties p).map (mapTie right) :=
      hshows.linkTo p
    have hnative := congrArg (Option.map fun tie => (tie.number, tie.initiator)) hleft
    have hjava := congrArg (Option.map fun tie => (tie.number, tie.initiator)) hright
    rw [Option.map_map, Option.map_map] at hnative hjava
    exact hjava.trans hnative.symm
  timers := by
    have htimers : g.timers = u.retries := congrArg Session.retries hstory
    rw [htimers]
    exact congrArg Java.Telling.View.retries hshows.view
  closed := hshows.closed.trans (congrArg Session.closed hstory).symm

def rustAfter (rtc : Rtc String) (path : Option String) (joined : JoinedMsg)
    (inputs : List (Rtc String × Input String)) : Game String :=
  inputs.foldl (fun g l => g.take l.1 l.2) (Game.start rtc path joined)

def rustHappenings (rtc : Rtc String) (inputs : List (Rtc String × Input String)) :
    List (Happening String) :=
  .begun rtc.creates :: inputs.filterMap fun l => happening l.1 l.2

theorem story_rustAfter (rtc : Rtc String) (path : Option String) (joined : JoinedMsg)
    (inputs : List (Rtc String × Input String)) :
    story (rustAfter rtc path joined inputs).actor =
      (Session.new joined path.isSome).run Client.Telling.reader (rustHappenings rtc inputs) := by
  obtain ⟨hkeeps, hstart⟩ := Client.Telling.keeps_start rtc path joined
  unfold rustAfter
  rw [Client.Telling.story_run hkeeps, hstart]
  rfl

theorem keeps_rustAfter (rtc : Rtc String) (path : Option String) (joined : JoinedMsg)
    (inputs : List (Rtc String × Input String)) :
    Client.Telling.Keeps (rustAfter rtc path joined inputs) :=
  List.foldlRecOn inputs _ (Client.Telling.keeps_start rtc path joined).1 fun _ h l _ =>
    Client.Telling.keeps_take l.1 h l.2

theorem later_rustAfter (rtc : Rtc String) (path : Option String) (joined : JoinedMsg)
    (before after : List (Rtc String × Input String)) :
    story (rustAfter rtc path joined (before ++ after)).actor =
      (story (rustAfter rtc path joined before).actor).run Client.Telling.reader
        (after.filterMap fun l => happening l.1 l.2) := by
  rw [← Client.Telling.story_run (keeps_rustAfter rtc path joined before) after]
  unfold rustAfter
  rw [List.foldl_append]

/-- Whatever the two clients do in between, and in whatever order the calls of the Java client
to its WebRTC stack are over. -/
theorem clients_tell (lib : JavaNumbers D) {raw : Value D → String} {m : Members D}
    {joined : JoinedMsg} (hjoined : Wire.joined m = some joined) {javaPath : Option JString}
    {path : Option String} (hpaths : javaPath.isSome = path.isSome) {ls : List (Label D)}
    {σ : State D} (run : Run (Java.Tasks.system lib javaPath (Joined.read lib m)) ls σ)
    (hread : ∀ l ∈ ls, ReadableStep lib raw l) (rtc : Rtc String)
    (inputs : List (Rtc String × Input String))
    (hsame : ls.filterMap (told lib raw) = rustHappenings rtc inputs) :
    Alike (rustAfter rtc path joined inputs).actor σ.actor := by
  have hempty : Clients.JavaMirrors (Client.Telling.reader.empty) Java.Telling.reader.empty :=
    Clients.mirrors_empty _ _
  obtain ⟨u, hleft, hright⟩ := run_both hempty readers_agree joined path.isSome
    (rustHappenings rtc inputs)
  obtain ⟨first, rfl, steps⟩ := run.steps
  have hshows := (Java.Telling.shows_new lib hjoined javaPath).steps lib steps hread
  rw [hsame, hpaths, hright] at hshows
  exact alike_of_shows ((story_rustAfter rtc path joined inputs).trans hleft) hshows

open Java.Telling (plainNumbers joinedMembers joinedMsg joined_read startEnv callEnv frameOne leftText
  parse_leftText linkLabels talkLabels talkState talk_run talk_readable)

def startRtc : Rtc String where
  creates := fun _ => true
  offers := fun _ => true
  describes := fun _ => true
  parses := true
  answers := true
  failed := false
  takes := fun _ => true
  offerOf := fun _ => "offer"
  answerOf := fun _ offer => offer

def talkInputs : List (Rtc String × Input String) :=
  [(startRtc, .internal (.state 1 1 .failed)),
    ({ startRtc with failed := true }, .internal (.rebuild 1 1)),
    (startRtc, .internal (.state 1 2 .connected)), (startRtc, .internal (.reliable 1 2 frameOne 0)),
    (startRtc, .internal (.ws (.playerLeft 1 "disconnected")))]

theorem told_talk : talkLabels.filterMap (told plainNumbers fun _ => "") =
    rustHappenings startRtc talkInputs := by
  have hleft : told plainNumbers (fun _ => "") (.run callEnv (.serverText leftText)) =
      some (.message (.playerLeft 1 "disconnected") fun p => callEnv.creates p) :=
    Java.Telling.told_text plainNumbers parse_leftText
  rw [talkLabels, List.filterMap_append, List.filterMap_cons_none rfl, List.filterMap_cons_some hleft]
  rfl

theorem clients_tell_start : (rustAfter startRtc none joinedMsg talkInputs).actor.events =
      [.peerState 1 .failed, .peerState 1 .connected, .message 1 .reliable [7],
        .playerLeft 1 .disconnected] ∧
    Alike (rustAfter startRtc none joinedMsg talkInputs).actor talkState.actor :=
  ⟨rfl, clients_tell plainNumbers joined_read rfl talk_run talk_readable startRtc talkInputs told_talk⟩

open Client.Past

theorem told_new {R : Type} (joined : JoinedMsg) (keeps : Bool) :
    Told (Session.new joined keeps : Session R) :=
  ⟨nofun, fun before after e h => absurd h (by simp [Session.new])⟩

/-- The connection is lost at most once, and not after the server has closed it. -/
theorem lost_once (lib : JavaNumbers D) {raw : Value D → String} {m : Members D}
    {joined : JoinedMsg} (hjoined : Wire.joined m = some joined) (javaPath : Option JString)
    {ls : List (Label D)} {σ : State D}
    (run : Run (Java.Tasks.system lib javaPath (Joined.read lib m)) ls σ)
    (hread : ∀ l ∈ ls, ReadableStep lib raw l) (rtc : Rtc String) (path : Option String)
    (inputs : List (Rtc String × Input String)) :
    (∀ before after message, (rustAfter rtc path joined inputs).actor.events =
        before ++ .signalingClosed "connection-lost" message :: after →
      ∀ code text, .signalingClosed code text ∉ before) ∧
    (∀ before after message, σ.actor.events =
        before ++ .signalingClosed (Wire.utf16 "connection-lost") message :: after →
      ∀ code text, .signalingClosed code text ∉ before) := by
  constructor
  · intro before after message hevents code text hmem
    have htold := told_run Client.Telling.reader (told_new joined path.isSome)
      (rustHappenings rtc inputs)
    rw [← story_rustAfter] at htold
    exact absurd (htold.lost before after _ hevents rfl _ hmem) nofun
  · intro before after message hevents code text hmem
    obtain ⟨first, rfl, steps⟩ := run.steps
    have hshows := (Java.Telling.shows_new lib hjoined javaPath).steps lib steps hread
    have htold := told_run Java.Telling.reader (told_new joined javaPath.isSome)
      (ls.filterMap (told lib raw))
    have hwritten : σ.actor.events = _ := congrArg Java.Telling.View.told hshows.view
    obtain ⟨before', rest, hsplit, rfl, hrest⟩ := List.map_eq_append_iff.1 (hwritten.symm.trans hevents)
    obtain ⟨e, after', rfl, he, -⟩ := List.map_eq_cons_iff.1 hrest
    obtain ⟨e', hmem', he'⟩ := List.mem_map.1 hmem
    have hlost : isLost e = true := by
      cases e with
      | signalingClosed c t =>
        have hcode := (Java.Tasks.Event.signalingClosed.inj he).1
        exact decide_eq_true (Java.Accessors.utf16_inj.1 hcode)
      | _ => cases he
    have hclosing : isClosing e' = true := by
      cases e' with
      | signalingClosed => rfl
      | _ => cases he'
    exact absurd ((htold.lost before' after' e hsplit hlost e' hmem').symm.trans hclosing) nofun

def lostInputs : List (Rtc String × Input String) := talkInputs ++ [(startRtc, .internal .wsClosed)]

def lostState : State Empty := ⟨talkState.actor.handleWsClosed, []⟩

theorem lost_run : Run (Java.Tasks.system plainNumbers none (Joined.read plainNumbers joinedMembers))
    (talkLabels ++ [.post .wsClosed] ++ [.run startEnv .wsClosed]) lostState := by
  have hposted : Run (Java.Tasks.system plainNumbers none (Joined.read plainNumbers joinedMembers))
      (talkLabels ++ [.post .wsClosed]) ⟨talkState.actor, [.wsClosed]⟩ := talk_run.step ⟨rfl, trivial, rfl⟩
  exact hposted.step ⟨[], rfl, rfl⟩

theorem lost_readable : ∀ l ∈ talkLabels ++ [.post .wsClosed] ++ [.run startEnv .wsClosed],
    ReadableStep plainNumbers (fun _ => "") l := by
  rintro l hl
  simp only [List.append_assoc, List.mem_append, List.mem_singleton] at hl
  rcases hl with hl | rfl | rfl
  · exact talk_readable l hl
  · trivial
  · trivial

def lostText : String := "signaling connection lost; existing peer channels stay up"

theorem lost_once_start :
    (rustAfter startRtc none joinedMsg lostInputs).actor.events =
      (rustAfter startRtc none joinedMsg talkInputs).actor.events ++
        .signalingClosed "connection-lost" lostText :: [] ∧
    lostState.actor.events = talkState.actor.events ++
      .signalingClosed (Wire.utf16 "connection-lost") (Wire.utf16 lostText) :: [] ∧
    .signalingClosed "replaced" "" ∉ (rustAfter startRtc none joinedMsg talkInputs).actor.events ∧
    .signalingClosed (Wire.utf16 "replaced") [] ∉ talkState.actor.events := by
  have hrust : (rustAfter startRtc none joinedMsg lostInputs).actor.events =
      (rustAfter startRtc none joinedMsg talkInputs).actor.events ++
        .signalingClosed "connection-lost" lostText :: [] := rfl
  have hjava : lostState.actor.events = talkState.actor.events ++
      .signalingClosed (Wire.utf16 "connection-lost") (Wire.utf16 lostText) :: [] := rfl
  obtain ⟨hrustOnce, hjavaOnce⟩ := lost_once plainNumbers joined_read none lost_run lost_readable startRtc
    none lostInputs
  exact ⟨hrust, hjava, hrustOnce _ [] _ hrust "replaced" "", hjavaOnce _ [] _ hjava _ _⟩

/-- A failing link is tried again three times, until there is another one that works or the
player comes anew. -/
theorem tries_bounded (lib : JavaNumbers D) {raw : Value D → String} {m : Members D}
    {joined : JoinedMsg} (hjoined : Wire.joined m = some joined) (javaPath : Option JString)
    {ls : List (Label D)} {σ : State D}
    (run : Run (Java.Tasks.system lib javaPath (Joined.read lib m)) ls σ)
    (hread : ∀ l ∈ ls, ReadableStep lib raw l) (rtc : Rtc String) (path : Option String)
    (inputs : List (Rtc String × Input String)) (p : PlayerId) :
    (rustAfter rtc path joined inputs).actor.timers.countP (fun t => t.1 = p) ≤
        maxPeerRebuilds * (1 + (rustHappenings rtc inputs).countP (resets p)) ∧
      σ.actor.timers.countP (fun t => t.1 = (p : Int)) ≤
        maxPeerRebuilds * (1 + (ls.filterMap (told lib raw)).countP (resets p)) := by
  constructor
  · have hrun := tries_new Client.Telling.reader joined path.isSome (rustHappenings rtc inputs) p
    rw [← story_rustAfter] at hrun
    exact hrun
  · obtain ⟨first, rfl, steps⟩ := run.steps
    have hshows := (Java.Telling.shows_new lib hjoined javaPath).steps lib steps hread
    have htimers : σ.actor.timers = _ := congrArg Java.Telling.View.retries hshows.view
    have hrun := tries_new Java.Telling.reader joined javaPath.isSome (ls.filterMap (told lib raw)) p
    rw [htimers]
    simp only [Java.Telling.written, List.countP_map, Function.comp_def, Nat.cast_inj]
    exact hrun

theorem tries_bounded_start :
    ((rustAfter startRtc none joinedMsg talkInputs).actor.timers.countP (fun t => t.1 = 1) = 1 ∧
      1 ≤ maxPeerRebuilds * (1 + (rustHappenings startRtc talkInputs).countP (resets 1))) ∧
    (talkState.actor.timers.countP (fun t => t.1 = ((1 : PlayerId) : Int)) = 1 ∧
      1 ≤ maxPeerRebuilds *
        (1 + (talkLabels.filterMap (told plainNumbers fun _ => "")).countP (resets 1))) := by
  have hrust : (rustAfter startRtc none joinedMsg talkInputs).actor.timers.countP (fun t => t.1 = 1) = 1 :=
    rfl
  have hjava : talkState.actor.timers.countP (fun t => t.1 = ((1 : PlayerId) : Int)) = 1 := rfl
  obtain ⟨hrustFew, hjavaFew⟩ := tries_bounded plainNumbers joined_read none talk_run talk_readable startRtc
    none talkInputs 1
  rw [hrust] at hrustFew
  rw [hjava] at hjavaFew
  exact ⟨⟨hrust, hrustFew⟩, hjava, hjavaFew⟩

/-- What does not come by the link that its player has, the client does not notice. -/
theorem gone_for_good (lib : JavaNumbers D) {raw : Value D → String} {m : Members D}
    {joined : JoinedMsg} (hjoined : Wire.joined m = some joined) (javaPath : Option JString)
    {ls ms : List (Label D)} {σ τ : State D}
    (run : Run (Java.Tasks.system lib javaPath (Joined.read lib m)) ls σ)
    (steps : Steps (Java.Tasks.system lib javaPath (Joined.read lib m)) σ ms τ)
    (hread : ∀ l ∈ ls ++ ms, ReadableStep lib raw l) (rtc : Rtc String) (path : Option String)
    (before after : List (Rtc String × Input String)) (p : PlayerId) (number : Nat) :
    (number ≤ (rustAfter rtc path joined before).actor.epochCounter →
      (∀ peer, (rustAfter rtc path joined before).actor.peers p = some peer →
        peer.link.epoch ≠ number) →
      ∀ rtc' input what, happening rtc' input = some what → ByLink p number what →
        story ((rustAfter rtc path joined (before ++ after)).take rtc' input).actor =
          story (rustAfter rtc path joined (before ++ after)).actor) ∧
    (number ≤ σ.actor.epochCounter → σ.actor.linkEpochCurrent p number = false →
      ∀ env task what, told lib raw (.run env task) = some what → ByLink p number what →
        Java.Telling.view (τ.actor.runTask lib env task) = Java.Telling.view τ.actor) := by
  constructor
  · intro hnumber hgone rtc' input what hwhat hlink
    have hlater : story (rustAfter rtc path joined (before ++ after)).actor = _ :=
      later_rustAfter rtc path joined before after
    have hnone : (story (rustAfter rtc path joined before).actor).tie p number = none := by
      rw [Client.Telling.tie_story, Option.map_eq_none_iff, Option.filter_eq_none_iff]
      exact fun peer hpeer => by simpa using hgone peer hpeer
    have hstays := gone_of_moves (moves_run Client.Telling.reader _
      (after.filterMap fun l => happening l.1 l.2)) hnumber hnone
    rw [← hlater] at hstays
    rw [Client.Telling.story_take rtc' (keeps_rustAfter rtc path joined _), hwhat]
    exact take_gone Client.Telling.reader hstays hlink
  · intro hnumber hgone env task what hwhat hlink
    obtain ⟨first, rfl, steps'⟩ := run.steps
    have hbefore := (Java.Telling.shows_new lib hjoined javaPath).steps lib steps' fun l hl =>
      hread l (List.mem_append_left _ hl)
    have hafter := hbefore.steps lib steps fun l hl => hread l (List.mem_append_right _ hl)
    have hattempts : σ.actor.epochCounter = _ := congrArg Java.Telling.View.attempts hbefore.view
    rw [hattempts] at hnumber
    rw [hbefore.current, ← Bool.not_eq_true, Option.not_isSome_iff_eq_none] at hgone
    have hstays := gone_of_moves (moves_run Java.Telling.reader _ (ms.filterMap (told lib raw)))
      hnumber hgone
    have hreadable : Java.Telling.Readable lib raw env task := by
      cases task with
      | serverText text =>
        simp only [told, Java.Telling.happening] at hwhat
        split at hwhat
        · obtain ⟨msg, -, rfl⟩ := Option.map_eq_some_iff.1 hwhat
          cases hlink
        · cases hwhat
      | _ => trivial
    have hnext := hafter.take lib env hreadable
    have hstory : Java.Telling.happening lib raw env task = some what := hwhat
    rw [hstory, Option.elim_some, take_gone Java.Telling.reader hstays hlink] at hnext
    exact hnext.view.trans hafter.view.symm

/-- The first link was replaced by the second. -/
theorem gone_for_good_start :
    story ((rustAfter startRtc none joinedMsg talkInputs).take startRtc
        (.internal (.state 1 1 .connected))).actor =
      story (rustAfter startRtc none joinedMsg talkInputs).actor ∧
    Java.Telling.view (talkState.actor.runTask plainNumbers startEnv (.connectionChange 1 1 .connected)) =
      Java.Telling.view talkState.actor := by
  have hreadable : ∀ l ∈ talkLabels ++ [], ReadableStep plainNumbers (fun _ => "") l := by
    rw [List.append_nil]
    exact talk_readable
  have hgone : ∀ peer, (rustAfter startRtc none joinedMsg talkInputs).actor.peers 1 = some peer →
      peer.link.epoch ≠ 1 := by
    have hpeer : ((rustAfter startRtc none joinedMsg talkInputs).actor.peers 1).map (·.link.epoch) =
        some 2 := rfl
    intro peer h heq
    rw [h, Option.map_some, heq] at hpeer
    cases hpeer
  have hmade : 1 ≤ (rustAfter startRtc none joinedMsg talkInputs).actor.epochCounter := by decide
  obtain ⟨hrust, hjava⟩ := gone_for_good plainNumbers joined_read none talk_run .refl hreadable startRtc
    none talkInputs [] 1 1
  have hrust := hrust hmade hgone startRtc (.internal (.state 1 1 .connected)) _ rfl (.state .connected)
  rw [List.append_nil] at hrust
  have hopened : 1 ≤ talkState.actor.epochCounter := by decide
  exact ⟨hrust, hjava hopened rfl startEnv (.connectionChange 1 1 .connected) _ rfl (.state .connected)⟩

end Lobbylink.System.Tellings
