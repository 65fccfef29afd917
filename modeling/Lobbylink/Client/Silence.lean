import Lobbylink.Client.Native

/-! The inputs that concern only the user: they neither touch a link nor send a signal. What
they may do to the actor is said once here, and each property of it follows by the rule of
`Silent`. -/
namespace Lobbylink.Client.Silence
open Protocol Framing Native Reassembly

variable {Sdp : Type}

/-- Events for the user, datagrams, what is held of a message, and that signaling has
ended. -/
inductive Silent : Actor Sdp → Actor Sdp → Prop where
  | refl (a : Actor Sdp) : Silent a a
  | trans {a b c : Actor Sdp} : Silent a b → Silent b c → Silent a c
  | emit (a : Actor Sdp) (event : Event) : Silent a (a.emit event)
  | hold (a : Actor Sdp) (p : PlayerId) (r : Reassembler Int) :
      Silent a (a.modifyPeer p fun peer => { peer with reassembler := r })
  | note (a : Actor Sdp) (fatalSeen : Bool) (datagrams : List (PlayerId × Bytes)) :
      Silent a { a with fatalSeen := fatalSeen, datagrams := datagrams }

/-- A reading of the actor that the elementary changes leave alone is left alone. -/
theorem Silent.same {α : Type} (f : Actor Sdp → α) (hemit : ∀ a event, f (a.emit event) = f a)
    (hhold : ∀ a p (r : Reassembler Int),
      f (a.modifyPeer p fun peer => { peer with reassembler := r }) = f a)
    (hnote : ∀ a fatalSeen datagrams,
      f { a with fatalSeen := fatalSeen, datagrams := datagrams } = f a)
    {a b : Actor Sdp} (h : Silent a b) : f b = f a := by
  induction h with
  | refl a => rfl
  | trans _ _ ih ih' => exact ih'.trans ih
  | emit a event => exact hemit a event
  | hold a p r => exact hhold a p r
  | note a fatalSeen datagrams => exact hnote a fatalSeen datagrams

def tells : Internal Sdp → Bool
  | .wsClosed | .reliable .. | .bestEffort .. | .pair .. => true
  | .ws _ | .ice .. | .state .. | .rebuild .. => false

/-- A reliable send makes a queue; the other commands are silent. -/
def queues : Cmd → Bool
  | .sendReliable .. => true
  | .sendBestEffort .. | .broadcastBestEffort _ | .close => false

theorem silent_ite {a b : Actor Sdp} (P : Prop) [Decidable P] (h : Silent a b) :
    Silent a (if P then b else a) := by
  split_ifs
  · exact h
  · exact .refl a

theorem silent_handleReliable (a : Actor Sdp) (p : PlayerId) (epoch : Nat) (data : Bytes)
    (now : Int) : Silent a (a.handleReliable p epoch data now) := by
  unfold Actor.handleReliable
  split
  · exact .refl a
  split_ifs
  · exact .refl a
  split
  · exact .refl a
  simp only
  split
  · exact .hold a p _
  · exact .trans (.hold a p _) (.emit _ _)

theorem silent_handleInternal (rtc : Rtc Sdp) (a : Actor Sdp) {input : Internal Sdp}
    (h : tells input = true) : Silent a (a.handleInternal rtc input) := by
  cases input with
  | wsClosed => exact silent_ite _ (.trans (.note a true a.datagrams) (.emit _ _))
  | reliable p epoch data now => exact silent_handleReliable a p epoch data now
  | bestEffort | pair => exact silent_ite _ (.emit a _)
  | ws | ice | state | rebuild => cases h

theorem silent_handlePeerState (a : Actor Sdp) (p : PlayerId) (epoch : Nat) (state : PeerState) :
    ∃ b rebuildCounts timers, Silent a b ∧ a.handlePeerState p epoch state =
      { b with rebuildCounts := rebuildCounts, timers := timers } := by
  unfold Actor.handlePeerState
  split
  · exact ⟨a, _, _, .refl a, rfl⟩
  have hemit : Silent a (a.emit (.peerState p state)) := .emit a _
  simp only
  generalize a.emit (.peerState p state) = b at hemit ⊢
  cases state with
  | failed =>
    simp only [Actor.handlePeerFailure]
    split
    · exact ⟨b, _, _, hemit, rfl⟩
    · split_ifs
      · exact ⟨b, _, _, hemit, rfl⟩
      · exact ⟨b, _, _, hemit, rfl⟩
      · exact ⟨b, _, _, hemit, rfl⟩
  | _ => exact ⟨b, _, _, hemit, rfl⟩

theorem silent_bestEffortTo (rtc : Rtc Sdp) (a : Actor Sdp) (target : PlayerId) (data : Bytes) :
    Silent a (a.bestEffortTo rtc target data) := by
  unfold Actor.bestEffortTo
  split
  · exact .refl a
  split_ifs
  · exact .refl a
  · exact .note a a.fatalSeen _

theorem silent_handleCmd (rtc : Rtc Sdp) (a : Actor Sdp) {cmd : Cmd}
    (h : queues cmd = false) : Silent a (a.handleCmd rtc cmd) := by
  cases cmd with
  | sendReliable target data => cases h
  | sendBestEffort target data => exact silent_bestEffortTo rtc a target data
  | broadcastBestEffort data =>
    exact List.foldlRecOn _ _ (.refl a) fun b hb p _ => .trans hb (silent_bestEffortTo rtc b p data)
  | close => exact .refl a

end Lobbylink.Client.Silence
