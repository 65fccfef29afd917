import Mathlib.Data.List.Forall2
import Lobbylink.Client.Delivery
import Lobbylink.Ts.Chains
import Lobbylink.System.Clients

/-! From the reliable sends of a page of the browser client, which keeps to its buffers, to what a
client of any kind makes of them. A channel hands over the frames it took, in order, until it is
closed. -/
namespace Lobbylink.System.Deliveries
open Lib.Bytes Lib.Runs Client.Protocol Client.Framing Client.Reassembly Client.Sender
open Client.Delivery Client.Receipt Clients Formats
open Ts.Sends Ts.Chains
open Ts.Reliable (toUint32)

variable {τ : Type}

section Receiving
variable [Sub τ] [LE τ] [DecidableLE τ] {timeout : τ}

theorem framesOf_chunks {id : UInt32} {v : Locals} (hid : v.msgId = id.toNat) {data : Bytes}
    (hsize : data.length ≤ maxReliableMessage) :
    framesOf v data = (List.range' 0 (chunkCount data.length).toNat).map
      (chunkFrame id (chunkCount data.length) data) := by
  unfold framesOf
  rw [hid, ts_frames id hsize, frames_eq, List.range_eq_range']

theorem receive_part {id : UInt32} {v : Locals} (hid : v.msgId = id.toNat) {data : Bytes}
    (hsize : data.length ≤ maxReliableMessage) {r : Reassembler τ} (hnew : r.inflight id = none)
    {burst : List (Bytes × τ)} (hburst : burst.map Prod.fst <+: framesOf v data)
    (htime : InTime timeout burst) :
    ∃ r' : Reassembler τ, Untouched r r' id ∧ r.receive timeout burst =
      (r', if burst.length = (framesOf v data).length then [data] else []) := by
  obtain ⟨hone, hcount, hcovers⟩ := chunkCount_spec hsize
  have hcut : Cut (chunkCount data.length) data := ⟨UInt32.le_iff_toNat_le.2 hcount, hcovers, hsize⟩
  have hlen : (framesOf v data).length = (chunkCount data.length).toNat := by
    rw [framesOf_chunks hid hsize, List.length_map, List.length_range']
  have hle : burst.length ≤ (chunkCount data.length).toNat := by
    have hshort := hburst.length_le
    rwa [List.length_map, hlen] at hshort
  have hframes : burst.map Prod.fst =
      (List.range' 0 burst.length).map (chunkFrame id (chunkCount data.length) data) := by
    have htake := List.prefix_iff_eq_take.1 hburst
    rwa [framesOf_chunks hid hsize, List.length_map, ← List.map_take,
      List.take_range'_of_length_ge hle] at htake
  obtain ⟨r', hother, hreceive⟩ := receive_burst hcut burst hframes hle hnew htime
  refine ⟨r', hother, ?_⟩
  have hiff : (0 < burst.length ∧ burst.length = (chunkCount data.length).toNat) ↔
      burst.length = (framesOf v data).length := by omega
  simp only [hreceive, hiff]

def whole : List (List (Bytes × τ)) → List Message → List Bytes
  | burst :: bursts, message :: rest =>
    if burst.length = (framesOf message.locals message.called).length then
      message.called :: whole bursts rest
    else whole bursts rest
  | _, _ => []

/-- Some first frames of each message, with ids that count up from `n`. -/
theorem receive_given {bursts : List (List (Bytes × τ))} {messages : List Message}
    (harrive : List.Forall₂ (fun burst message =>
      burst.map Prod.fst <+: framesOf message.locals message.called) bursts messages)
    (hsize : ∀ message ∈ messages, message.called.length ≤ maxReliableMessage) {n : Nat}
    (hids : messages.map (·.locals.msgId) = (List.range' n messages.length).map toUint32)
    (hn : n + messages.length ≤ 2 ^ 32) {r : Reassembler τ} (hfresh : FreshFrom n r)
    (htime : ∀ burst ∈ bursts, InTime timeout burst) :
    (r.receive timeout bursts.flatten).2 = whole bursts messages := by
  induction harrive generalizing n r with
  | nil => rfl
  | @cons burst message bursts messages hburst _ ih =>
    simp only [List.map_cons, List.length_cons, List.range'_succ, List.cons.injEq] at hids
    rw [List.length_cons] at hn
    have hid : (UInt32.ofNat n).toNat = n := by
      rw [UInt32.toNat_ofNat']
      exact Nat.mod_eq_of_lt (by omega)
    have hmsg : message.locals.msgId = (UInt32.ofNat n).toNat := by
      rw [hids.1, UInt32.toNat_ofNat']
      rfl
    obtain ⟨r', hother, hreceive⟩ := receive_part hmsg (hsize message List.mem_cons_self)
      (hfresh _ (Nat.le_of_eq hid.symm)) hburst (htime burst List.mem_cons_self)
    have hfresh' : FreshFrom (n + 1) r' := fun id hle =>
      hother id (fun h => absurd hle (by rw [h, hid]; omega)) (hfresh id (Nat.le_of_succ_le hle))
    have hrest := ih (fun m hm => hsize m (List.mem_cons_of_mem _ hm)) hids.2 (by omega) hfresh'
      fun b hb => htime b (List.mem_cons_of_mem _ hb)
    rw [List.flatten_cons, receive_append, hreceive]
    simp only [whole, hrest]
    split_ifs <;> rfl

def messages (answered : List (Except String (Option Bytes))) : List Bytes :=
  answered.filterMap fun answer => answer.toOption.join

theorem messages_receive (r : Reassembler τ) (arrivals : List (Bytes × τ)) :
    messages (answers (take parseFrame (Reassembler.push timeout)) r arrivals) =
      (r.receive timeout arrivals).2 := by
  induction arrivals generalizing r with
  | nil => rfl
  | cons arrival rest ih =>
    obtain ⟨buf, now⟩ := arrival
    simp only [answers, Reassembler.receive, Clients.take]
    cases parseFrame buf with
    | error reason => exact ih r
    | ok frame =>
      have hrest := ih (r.push timeout frame now).1
      simp only [messages, List.filterMap_cons] at hrest ⊢
      cases (r.push timeout frame now).2 with
      | none => simpa [Except.toOption] using hrest
      | some data => simpa [Except.toOption] using hrest

omit [Sub τ] [LE τ] [DecidableLE τ]

theorem whole_sublist (bursts : List (List (Bytes × τ))) (sent : List Message) :
    (whole bursts sent).Sublist (sent.map (·.called)) := by
  induction sent generalizing bursts with
  | nil => cases bursts <;> exact .slnil
  | cons message rest ih =>
    cases bursts with
    | nil => exact List.nil_sublist _
    | cons burst bursts =>
      unfold whole
      split_ifs
      · exact (ih bursts).cons_cons _
      · exact (ih bursts).cons _

theorem mem_whole {bursts : List (List (Bytes × τ))} {sent : List Message}
    (hall : bursts.map (List.map Prod.fst) = sent.map (·.handed)) {message : Message}
    (hmem : message ∈ sent)
    (hfull : message.handed.length = (framesOf message.locals message.called).length) :
    message.called ∈ whole bursts sent := by
  induction sent generalizing bursts with
  | nil => cases hmem
  | cons first rest ih =>
    cases bursts with
    | nil => cases hall
    | cons burst bursts =>
      simp only [List.map_cons, List.cons.injEq] at hall
      unfold whole
      rcases List.mem_cons.1 hmem with rfl | hmem
      · have hlen : burst.length = (framesOf message.locals message.called).length := by
          rw [← hfull, ← hall.1, List.length_map]
        rw [if_pos hlen]
        exact List.mem_cons_self
      · split_ifs
        · exact List.mem_cons_of_mem _ (ih hall.2 hmem)
        · exact ih hall.2 hmem

end Receiving

variable [LinearOrder τ] [Sub τ] [NatCast τ]

/-- What the client at the other end of a link makes of what has arrived, of whatever kind it is. -/
structure Arrives {Sdp : Type} (s : Page Sdp) (n : Nat) (bursts : List (List (Bytes × τ))) : Prop where
  rust : messages (answers (take parseFrame (Reassembler.push (reassemblyTimeoutMs : τ))) .empty
    bursts.flatten) = whole bursts (given s.sends n)
  browser : messages (answers (take Ts.Reliable.parseFrame Ts.Reliable.Reassembler.push) .empty
    bursts.flatten) = whole bursts (given s.sends n)
  java : messages (answers (take Java.Reliable.parse Java.Reliable.Reassembler.push) .empty
    bursts.flatten) = whole bursts (given s.sends n)
  ordered : (whole bursts (given s.sends n)).Sublist ((given s.sends n).map (·.called))
  fulfilled : bursts.map (List.map Prod.fst) = (given s.sends n).map (·.handed) →
    ∀ (a : Send) (v : Locals), a ∈ s.sends → a.phase = .settled (.ok ()) → a.locals = some v →
    v.link = n → a.called ∈ whole bursts (given s.sends n)

theorem message_given {sends : List Send} {n : Nat} {m : Message} :
    m ∈ given sends n ↔
      ∃ a ∈ sends, ∃ v, a.locals = some v ∧ v.link = n ∧ m = ⟨v, a.called, a.handed⟩ := by
  unfold given message
  rw [List.mem_filterMap]
  refine exists_congr fun a => and_congr_right fun _ => ?_
  cases a.locals with
  | none => simp
  | some v => simp [Option.filter, eq_comm]

variable {Sdp : Type} [DecidableEq Sdp] {env : Ts.Game.Env} {storage : Option (Option String)}
  {joined : JoinedMsg} {ls : List (Ts.Sends.Label Sdp)} {s : Page Sdp}

/-- At any moment of any run in which the page keeps to its buffers, of what was handed over of each
message some first frames may have arrived. -/
theorem sends_arrive (run : Run (Ts.Sends.keeping env storage joined) ls s) {n : Nat}
    (hcount : (given s.sends n).length ≤ 2 ^ 32) {bursts : List (List (Bytes × τ))}
    (harrive : List.Forall₂ (fun burst message => burst.map Prod.fst <+: message.handed) bursts
      (given s.sends n))
    (htime : ∀ burst ∈ bursts, InTime (reassemblyTimeoutMs : τ) burst) : Arrives s n bursts := by
  have hinv := inv_keeping run
  have hids := hinv.ids n
  rw [List.range_eq_range'] at hids
  have hsize : ∀ m ∈ given s.sends n, m.called.length ≤ maxReliableMessage := by
    intro m hm
    obtain ⟨a, ha, v, -, -, rfl⟩ := message_given.1 hm
    obtain ⟨i, hi⟩ := List.getElem?_of_mem ha
    obtain ⟨hlen, hbound⟩ := hinv.size i a hi
    exact hlen.trans_le hbound
  have hcopied : ∀ m ∈ given s.sends n, m.handed <+: framesOf m.locals m.called := by
    intro m hm
    obtain ⟨a, ha, v, hv, -, rfl⟩ := message_given.1 hm
    exact hinv.copiedAll a ha v hv
  have hfirst : List.Forall₂ (fun burst message =>
      burst.map Prod.fst <+: framesOf message.locals message.called) bursts (given s.sends n) := by
    rw [List.forall₂_iff_get] at harrive ⊢
    exact harrive.imp_right fun hparts i hi hi' =>
      (hparts i hi hi').trans (hcopied _ (List.get_mem _ _))
  have hrust : messages (answers (take parseFrame (Reassembler.push (reassemblyTimeoutMs : τ))) .empty
      bursts.flatten) = whole bursts (given s.sends n) := by
    rw [messages_receive]
    exact receive_given hfirst hsize hids (by omega) (fun _ _ => rfl) htime
  refine ⟨hrust, ?_, ?_, whole_sublist _ _, fun hall a v ha hok hlocals hlink => ?_⟩
  · rw [ts_answers, hrust]
  · rw [java_answers, hrust]
  · obtain ⟨w, hw, -, hfull⟩ := hinv.inTurn.whole a ha hok
    obtain rfl := Option.some.inj (hlocals.symm.trans hw)
    exact mem_whole hall (message_given.2 ⟨a, ha, v, hlocals, hlink, rfl⟩) hfull

/-- Both messages have arrived. -/
theorem sends_arrive_pair : messages (answers (take parseFrame
      (Reassembler.push (reassemblyTimeoutMs : Int))) .empty
      [(Ts.Reliable.makeFrame 0 0 1 [2, 3, 4], 0), (Ts.Reliable.makeFrame 1 0 1 [9, 9], 5)]) =
    [[2, 3, 4], [9, 9]] := by
  have hgiven : given pairPage.sends 1 =
      [⟨⟨1, 0, 1⟩, [2, 3, 4], [Ts.Reliable.makeFrame 0 0 1 [2, 3, 4]]⟩,
        ⟨⟨1, 1, 1⟩, [9, 9], [Ts.Reliable.makeFrame 1 0 1 [9, 9]]⟩] := rfl
  have hcount : (given pairPage.sends 1).length ≤ 2 ^ 32 := by
    rw [hgiven]
    decide
  have harrive : List.Forall₂ (fun (burst : List (Bytes × Int)) message =>
      burst.map Prod.fst <+: message.handed)
      [[(Ts.Reliable.makeFrame 0 0 1 [2, 3, 4], 0)], [(Ts.Reliable.makeFrame 1 0 1 [9, 9], 5)]]
      (given pairPage.sends 1) := by
    rw [hgiven]
    exact .cons (List.prefix_refl _) (.cons (List.prefix_refl _) .nil)
  have htime : ∀ burst ∈ [[(Ts.Reliable.makeFrame 0 0 1 [2, 3, 4], (0 : Int))],
      [(Ts.Reliable.makeFrame 1 0 1 [9, 9], 5)]],
      InTime (reassemblyTimeoutMs : Int) burst := by simp [InTime]
  exact (sends_arrive pair_keeping hcount harrive htime).rust.trans (by rw [hgiven]; rfl)

end Lobbylink.System.Deliveries
