import Arcxa.Lib.BTreeMap
import Arcxa.Lib.Transition

/-!
# Leader election for distributed replay

A coordinator asks each of its peers for a vote, one after another in the order in which the
map of peers iterates, and counts the grants. A reply with a higher term makes it a follower
and is stored as its term, but the counting goes on, and at the end `start_election` decides
from the count alone.

`LeadershipEarned` is what an election is for: the leader has a strict majority in its own
term, no reply of the election had a higher term, and the term never went down. It holds of
the elections of a run exactly when they are `Orderly` (`leadership_earned_iff`).
-/

namespace Arcxa.Kafka

inductive RaftState where
  | Follower
  | Candidate
  | Leader
  deriving DecidableEq

/-- The entries that `start_election` and `replay_if_leader` append. -/
inductive ReplayEntryType where
  | RecoveryStarted (leaderId : String) (totalEvents : Nat)
  | RecoveryCompleted (totalEvents replayedEvents failedEvents : Nat)
  | LeaderElected (leaderId : String)
  deriving DecidableEq

structure ReplayLogEntry where
  term : UInt64
  entryType : ReplayEntryType
  deriving DecidableEq

structure PeerInfo where
  id : String
  url : String
  deriving DecidableEq

structure VoteResponse where
  voteGranted : Bool
  term : UInt64
  deriving DecidableEq

/-- What comes back from a peer that is asked for its vote. -/
inductive VoteReply where
  | sendFailed
  | parseFailed
  | response (r : VoteResponse)
  deriving DecidableEq

/-! ## Peers -/

/-- `str::split` by a nonempty separator; `skip` characters of a separator are still to be
passed over. -/
def splitAux (sep : List Char) (skip : Nat) (part : List Char) : List Char → List (List Char)
  | [] => [part.reverse]
  | c :: rest =>
    if 0 < skip then splitAux sep (skip - 1) part rest
    else if sep.isPrefixOf (c :: rest) then part.reverse :: splitAux sep (sep.length - 1) [] rest
    else splitAux sep 0 (c :: part) rest

def split (sep s : List Char) : List (List Char) := splitAux sep 0 [] s

/-- The peer id in a URL such as `http://coordinator-1:8080`. -/
def peerId (url : String) : String :=
  match (split [':', '/', '/'] url.toList)[1]?.bind (fun s => (split [':'] s).head?) with
  | some id => String.ofList id
  | none => url

structure DistributedReplayCoordinator where
  id : String
  state : RaftState
  term : UInt64
  /-- The values that the term has had, the latest first (ghost). -/
  terms : List UInt64
  votedFor : Option String
  peers : BTreeMap String PeerInfo
  log : List ReplayLogEntry

namespace DistributedReplayCoordinator

def addPeer (id : String) (peers : BTreeMap String PeerInfo) (url : String) :
    BTreeMap String PeerInfo :=
  if peerId url = id then peers
  else peers.insert (peerId url) { id := peerId url, url }

def new (id : String) (peerUrls : List String) : DistributedReplayCoordinator where
  id
  state := .Follower
  term := 0
  terms := [0]
  votedFor := none
  peers := peerUrls.foldl (addPeer id) .empty
  log := []

/-! ## The election -/

def setTerm (c : DistributedReplayCoordinator) (term : UInt64) : DistributedReplayCoordinator :=
  { c with term, terms := term :: c.terms }

def appendLogEntry (c : DistributedReplayCoordinator) (entryType : ReplayEntryType) :
    DistributedReplayCoordinator :=
  { c with log := c.log ++ [{ term := c.term, entryType }] }

/-- The reply of one peer to the request for a vote in `term`. -/
def requestVoteFromPeer (term : UInt64) (c : DistributedReplayCoordinator) :
    VoteReply → Except String Bool × DistributedReplayCoordinator
  | .sendFailed => (.error "Failed to send vote request", c)
  | .parseFailed => (.error "Failed to parse vote response", c)
  | .response r =>
    -- a peer with a higher term: step down
    if term < r.term then (.ok r.voteGranted, { c with state := .Follower }.setTerm r.term)
    else (.ok r.voteGranted, c)

/-- The loop over the peers, from `votes`. -/
def requestVotes (term : UInt64) :
    Nat → DistributedReplayCoordinator → List (String × VoteReply) →
      Nat × DistributedReplayCoordinator
  | votes, c, [] => (votes, c)
  | votes, c, (_, reply) :: replies =>
    match c.requestVoteFromPeer term reply with
    | (.ok true, c) => requestVotes term (votes + 1) c replies
    | (.ok false, c) => requestVotes term votes c replies
    | (.error _, c) => requestVotes term votes c replies

def majority (c : DistributedReplayCoordinator) : Nat := (c.peers.entries.length + 1) / 2 + 1

/-- Candidate of the next term, with the vote for itself. The addition wraps, as in a release
build. -/
def becomeCandidate (c : DistributedReplayCoordinator) : DistributedReplayCoordinator :=
  { { c with state := .Candidate }.setTerm (c.term + 1) with votedFor := some c.id }

/-- `start_election`, with the replies of the peers in the order in which they are asked. -/
def startElection (c : DistributedReplayCoordinator) (replies : List (String × VoteReply)) :
    Except String Unit × DistributedReplayCoordinator :=
  let candidate := c.becomeCandidate
  let (votes, c) := requestVotes candidate.term 1 candidate replies
  if c.majority ≤ votes then
    (.ok (), { c with state := .Leader }.appendLogEntry (.LeaderElected c.id))
  else (.error "Lost election: insufficient votes", { c with state := .Follower })

def Polls (c : DistributedReplayCoordinator) (replies : List (String × VoteReply)) : Prop :=
  (replies.map Prod.fst).Perm (c.peers.entries.map Prod.fst)

instance (c : DistributedReplayCoordinator) (replies : List (String × VoteReply)) :
    Decidable (c.Polls replies) :=
  inferInstanceAs (Decidable ((replies.map Prod.fst).Perm (c.peers.entries.map Prod.fst)))

def step (c : DistributedReplayCoordinator) (replies : List (String × VoteReply)) :
    Option DistributedReplayCoordinator :=
  if c.Polls replies then some (c.startElection replies).2 else none

/-! ## What an election is for -/

def granted : VoteReply → Bool
  | .response r => r.voteGranted
  | _ => false

def voters (replies : List (String × VoteReply)) : List String :=
  (replies.filter (fun p => granted p.2)).map Prod.fst

def higherTerm (term : UInt64) : VoteReply → Option UInt64
  | .response r => if term < r.term then some r.term else none
  | _ => none

def higherTerms (term : UInt64) (replies : List (String × VoteReply)) : List UInt64 :=
  replies.filterMap (fun p => higherTerm term p.2)

/-- Leadership is earned in its own term, and the term has never gone down. The term that the
votes are requested for is that of `becomeCandidate`. -/
structure LeadershipEarned (c : DistributedReplayCoordinator)
    (replies : List (String × VoteReply)) : Prop where
  ownTerm : (c.startElection replies).2.state = .Leader →
    (c.startElection replies).2.term = c.becomeCandidate.term
  majority : (c.startElection replies).2.state = .Leader →
    ∃ peers : List String, peers.Nodup ∧
      (∀ p ∈ peers, p ∈ c.peers.entries.map Prod.fst ∧
        ∃ r, (p, .response r) ∈ replies ∧ r.voteGranted = true) ∧
      c.peers.entries.length + 1 < 2 * (peers.length + 1)
  unchallenged : (c.startElection replies).2.state = .Leader →
    ∀ p r, (p, .response r) ∈ replies → r.term ≤ c.becomeCandidate.term
  monotone : (c.startElection replies).2.terms.Pairwise (fun later earlier => earlier ≤ later)

/-- The term can still be raised, the higher terms that come back never fall, and an election
with a higher term in it is lost. -/
structure Orderly (c : DistributedReplayCoordinator) (replies : List (String × VoteReply)) :
    Prop where
  room : c.term.toNat + 1 < 2 ^ 64
  ascending : (higherTerms (c.term + 1) replies).Pairwise (· ≤ ·)
  lost : higherTerms (c.term + 1) replies ≠ [] → (voters replies).length + 1 < c.majority

instance (c : DistributedReplayCoordinator) (replies : List (String × VoteReply)) :
    Decidable (c.Orderly replies) :=
  decidable_of_iff
    (c.term.toNat + 1 < 2 ^ 64 ∧ (higherTerms (c.term + 1) replies).Pairwise (· ≤ ·) ∧
      (higherTerms (c.term + 1) replies ≠ [] → (voters replies).length + 1 < c.majority))
    ⟨fun h => ⟨h.1, h.2.1, h.2.2⟩, fun h => ⟨h.room, h.ascending, h.lost⟩⟩

/-! ## What one election does -/

section Election

variable (c : DistributedReplayCoordinator) (replies : List (String × VoteReply))

theorem requestVoteFromPeer_spec (term : UInt64) (reply : VoteReply) :
    ((c.requestVoteFromPeer term reply).1 = .ok true ↔ granted reply = true) ∧
      (c.requestVoteFromPeer term reply).2.peers = c.peers ∧
      (c.requestVoteFromPeer term reply).2.term = (higherTerm term reply).getD c.term ∧
      (c.requestVoteFromPeer term reply).2.terms = (higherTerm term reply).toList ++ c.terms := by
  cases reply with
  | sendFailed => simp [requestVoteFromPeer, granted, higherTerm]
  | parseFailed => simp [requestVoteFromPeer, granted, higherTerm]
  | response r =>
    by_cases hhigher : term < r.term <;>
      simp [requestVoteFromPeer, granted, higherTerm, hhigher, setTerm]

theorem requestVotes_cons (term : UInt64) (votes : Nat) (p : String × VoteReply) :
    requestVotes term votes c (p :: replies) =
      requestVotes term (votes + (if granted p.2 then 1 else 0))
        (c.requestVoteFromPeer term p.2).2 replies := by
  have hgranted := (requestVoteFromPeer_spec c term p.2).1
  cases hr : c.requestVoteFromPeer term p.2 with
  | mk result c' =>
    rw [hr] at hgranted
    match result with
    | .ok true =>
      have h : granted p.2 = true := hgranted.mp rfl
      simp [requestVotes, hr, h]
    | .ok false =>
      have h : granted p.2 = false := by
        rw [← Bool.not_eq_true, ← hgranted]
        simp
      simp [requestVotes, hr, h]
    | .error e =>
      have h : granted p.2 = false := by
        rw [← Bool.not_eq_true, ← hgranted]
        simp
      simp [requestVotes, hr, h]

theorem requestVotes_spec (term : UInt64) (votes : Nat) :
    (requestVotes term votes c replies).1 = votes + (voters replies).length ∧
      (requestVotes term votes c replies).2.peers = c.peers ∧
      (requestVotes term votes c replies).2.term =
        (higherTerms term replies).getLast?.getD c.term ∧
      (requestVotes term votes c replies).2.terms =
        (higherTerms term replies).reverse ++ c.terms := by
  induction replies generalizing c votes with
  | nil => simp [requestVotes, voters, higherTerms]
  | cons p replies ih =>
    obtain ⟨-, hpeers, hterm, hterms⟩ := requestVoteFromPeer_spec c term p.2
    obtain ⟨hvotes, hpeers', hterm', hterms'⟩ :=
      ih (c.requestVoteFromPeer term p.2).2 (votes + (if granted p.2 then 1 else 0))
    rw [requestVotes_cons]
    refine ⟨?_, hpeers'.trans hpeers, ?_, ?_⟩
    · rw [hvotes]
      by_cases hgranted : granted p.2 = true <;> simp [voters, hgranted]
      omega
    · rw [hterm', hterm]
      cases hhigher : higherTerm term p.2 with
      | none => simp [higherTerms, hhigher]
      | some t => simp [higherTerms, hhigher, List.getLast?_cons]
    · rw [hterms', hterms]
      cases hhigher : higherTerm term p.2 <;> simp [higherTerms, hhigher]

theorem startElection_spec :
    ((c.startElection replies).2.state = .Leader ↔ c.majority ≤ (voters replies).length + 1) ∧
      (c.startElection replies).2.term =
        (higherTerms (c.term + 1) replies).getLast?.getD (c.term + 1) ∧
      (c.startElection replies).2.terms =
        (higherTerms (c.term + 1) replies).reverse ++ (c.term + 1) :: c.terms := by
  obtain ⟨hvotes, hpeers, hterm, hterms⟩ :=
    requestVotes_spec c.becomeCandidate replies (c.term + 1) 1
  have hmajority : (requestVotes (c.term + 1) 1 c.becomeCandidate replies).2.majority =
      c.majority := by
    rw [majority, hpeers]
    rfl
  rw [Nat.add_comm] at hvotes
  have heq : c.startElection replies = if c.majority ≤ (voters replies).length + 1 then
      (.ok (), { (requestVotes (c.term + 1) 1 c.becomeCandidate replies).2 with
        state := .Leader }.appendLogEntry
          (.LeaderElected (requestVotes (c.term + 1) 1 c.becomeCandidate replies).2.id))
    else (.error "Lost election: insufficient votes",
      { (requestVotes (c.term + 1) 1 c.becomeCandidate replies).2 with state := .Follower }) := by
    rw [← hvotes, ← hmajority]
    rfl
  rw [heq]
  split_ifs with hwon
  · exact ⟨⟨fun _ => hwon, fun _ => rfl⟩, hterm, hterms⟩
  · refine ⟨⟨fun h => ?_, fun h => absurd h hwon⟩, hterm, hterms⟩
    cases h

end Election

/-! ## Earned leadership -/

section Earned

variable {c : DistributedReplayCoordinator} {replies : List (String × VoteReply)}

theorem mem_higherTerms {term t : UInt64} :
    t ∈ higherTerms term replies ↔ ∃ p r, (p, .response r) ∈ replies ∧ r.term = t ∧ term < t := by
  constructor
  · intro h
    obtain ⟨⟨p, reply⟩, hmem, hterm⟩ := List.mem_filterMap.mp h
    cases reply with
    | sendFailed => cases hterm
    | parseFailed => cases hterm
    | response r =>
      simp only [higherTerm] at hterm
      split_ifs at hterm with hhigher
      cases hterm
      exact ⟨p, r, hmem, rfl, hhigher⟩
  · rintro ⟨p, r, hmem, rfl, hhigher⟩
    exact List.mem_filterMap.mpr ⟨_, hmem, if_pos hhigher⟩

theorem higherTerms_eq_nil {term : UInt64} :
    higherTerms term replies = [] ↔ ∀ p r, (p, .response r) ∈ replies → r.term ≤ term := by
  rw [List.eq_nil_iff_forall_not_mem]
  constructor
  · intro h p r hmem
    by_contra hhigher
    exact h r.term (mem_higherTerms.mpr ⟨p, r, hmem, rfl, UInt64.not_le.mp hhigher⟩)
  · intro h t ht
    obtain ⟨p, r, hmem, rfl, hhigher⟩ := mem_higherTerms.mp ht
    exact absurd (h p r hmem) (UInt64.not_le.mpr hhigher)

theorem nodup_voters (hpolls : c.Polls replies) : (voters replies).Nodup := by
  have hkeys : (c.peers.entries.map Prod.fst).Nodup :=
    (List.pairwise_map.mpr c.peers.sorted).imp ne_of_lt
  have hreplies : (replies.map Prod.fst).Nodup := hpolls.nodup_iff.mpr hkeys
  exact hreplies.sublist (List.filter_sublist.map _)

theorem mem_voters (hpolls : c.Polls replies) {p : String} (hp : p ∈ voters replies) :
    p ∈ c.peers.entries.map Prod.fst ∧ ∃ r, (p, .response r) ∈ replies ∧ r.voteGranted = true := by
  obtain ⟨⟨p', reply⟩, hmem, rfl⟩ := List.mem_map.mp hp
  obtain ⟨hin, hgranted⟩ := List.mem_filter.mp hmem
  refine ⟨hpolls.mem_iff.mp (List.mem_map_of_mem hin), ?_⟩
  cases reply with
  | sendFailed => cases hgranted
  | parseFailed => cases hgranted
  | response r => exact ⟨r, hin, hgranted⟩

/-- The history of the term: it ends in the term and has never gone down. -/
structure History (c : DistributedReplayCoordinator) : Prop where
  current : c.terms.head? = some c.term
  monotone : c.terms.Pairwise (fun later earlier => earlier ≤ later)

theorem history_new (id : String) (peerUrls : List String) : (new id peerUrls).History where
  current := rfl
  monotone := List.pairwise_singleton _ _

theorem History.le (h : c.History) {t : UInt64} (ht : t ∈ c.terms) : t ≤ c.term := by
  obtain ⟨rest, hrest⟩ := List.head?_eq_some_iff.mp h.current
  have hmono := h.monotone
  rw [hrest] at hmono ht
  rcases List.mem_cons.mp ht with rfl | hmem
  · exact UInt64.le_refl _
  · exact List.rel_of_pairwise_cons hmono hmem

theorem le_add_one_iff (t : UInt64) : t ≤ t + 1 ↔ t.toNat + 1 < 2 ^ 64 := by
  have hlt := t.toNat_lt
  rw [UInt64.le_iff_toNat_le, UInt64.toNat_add]
  show t.toNat ≤ (t.toNat + 1) % 2 ^ 64 ↔ _
  omega

theorem monotone_startElection (h : c.History) :
    (c.startElection replies).2.terms.Pairwise (fun later earlier => earlier ≤ later) ↔
      c.term.toNat + 1 < 2 ^ 64 ∧ (higherTerms (c.term + 1) replies).Pairwise (· ≤ ·) := by
  have hcurrent : c.term ∈ c.terms := List.mem_of_head? h.current
  rw [(startElection_spec c replies).2.2, List.pairwise_append, List.pairwise_reverse,
    List.pairwise_cons, ← le_add_one_iff]
  constructor
  · rintro ⟨hascending, ⟨hraise, -⟩, -⟩
    exact ⟨hraise _ hcurrent, hascending⟩
  · rintro ⟨hraise, hascending⟩
    have hpast : ∀ t ∈ c.terms, t ≤ c.term + 1 := 
      fun t ht => UInt64.le_trans (h.le ht) hraise
    refine ⟨hascending, ⟨hpast, h.monotone⟩, ?_⟩
    intro t ht t' ht'
    obtain ⟨-, -, -, -, hhigher⟩ := mem_higherTerms.mp (List.mem_reverse.mp ht)
    rcases List.mem_cons.mp ht' with rfl | hmem
    · exact UInt64.le_of_lt hhigher
    · exact UInt64.le_trans (hpast t' hmem) (UInt64.le_of_lt hhigher)

theorem earned_iff_orderly (h : c.History) (hpolls : c.Polls replies) :
    c.LeadershipEarned replies ↔ c.Orderly replies := by
  obtain ⟨hleader, hterm, -⟩ := startElection_spec c replies
  constructor
  · intro hearned
    obtain ⟨hroom, hascending⟩ := (monotone_startElection h).mp hearned.monotone
    refine ⟨hroom, hascending, ?_⟩
    intro hhigher
    by_contra hwon
    exact hhigher (higherTerms_eq_nil.mpr
      (hearned.unchallenged (hleader.mpr (not_lt.mp hwon))))
  · intro horderly
    -- a leader has seen no higher term, or the election would have been lost
    have hnone : (c.startElection replies).2.state = .Leader →
        higherTerms (c.term + 1) replies = [] := by
      intro hstate
      by_contra hhigher
      exact absurd (hleader.mp hstate) (not_le.mpr (horderly.lost hhigher))
    refine ⟨fun hstate => ?_, fun hstate => ?_, fun hstate => ?_, ?_⟩
    · rw [hterm, hnone hstate]
      rfl
    · refine ⟨voters replies, nodup_voters hpolls, fun p hp => mem_voters hpolls hp, ?_⟩
      have hwon := hleader.mp hstate
      rw [DistributedReplayCoordinator.majority] at hwon
      omega
    · exact higherTerms_eq_nil.mp (hnone hstate)
    · exact (monotone_startElection h).mpr ⟨horderly.room, horderly.ascending⟩

theorem history_startElection (hearned : c.LeadershipEarned replies) :
    (c.startElection replies).2.History := by
  refine ⟨?_, hearned.monotone⟩
  obtain ⟨-, hterm, hterms⟩ := startElection_spec c replies
  rw [hterm, hterms, List.head?_append, List.head?_reverse]
  cases (higherTerms (c.term + 1) replies).getLast? <;> rfl

/-- **Leadership is earned in its own term** in every election of a run, and the term never goes
down in it, exactly when every election of the run is orderly. -/
theorem leadership_earned_iff (id : String) (peerUrls : List String)
    (elections : List (List (String × VoteReply))) (s : DistributedReplayCoordinator)
    (hrun : exec step (new id peerUrls) elections = some s) :
    OkAlong step LeadershipEarned (new id peerUrls) elections ↔
      OkAlong step Orderly (new id peerUrls) elections := by
  refine okAlong_congr (I := History) ?_ (history_new id peerUrls) hrun
  intro c replies c' hhistory hstep
  unfold step at hstep
  split_ifs at hstep with hpolls
  cases hstep
  exact ⟨earned_iff_orderly hhistory hpolls, history_startElection⟩

def sampleCoordinator : DistributedReplayCoordinator :=
  new "coordinator-1"
    ["http://coordinator-1:8080", "http://coordinator-2:8080", "http://coordinator-3:8080"]

def sampleElections : List (List (String × VoteReply)) :=
  [[("coordinator-3", .response ⟨false, 7⟩), ("coordinator-2", .sendFailed)],
    [("coordinator-2", .response ⟨true, 0⟩), ("coordinator-3", .response ⟨false, 8⟩)]]

theorem leadership_earned_sample :
    (∃ s, exec step sampleCoordinator sampleElections = some s ∧ s.state = .Leader ∧
      s.term = 8) ∧
      OkAlong step LeadershipEarned sampleCoordinator sampleElections := by
  have horderly : OkAlong step Orderly sampleCoordinator sampleElections := by decide +kernel
  obtain ⟨s, hexec, hstate⟩ : ∃ s, exec step sampleCoordinator sampleElections = some s ∧
      s.state = .Leader ∧ s.term = 8 :=
    exists_exec _ (by decide +kernel) (fun _ _ hq => hq)
  exact ⟨⟨s, hexec, hstate⟩, (leadership_earned_iff _ _ _ s hexec).mpr horderly⟩

/-- One grant and one reply with term 7: leader in term 7, with a vote for term 1. Replies with
terms 10 and 5: the term goes down from 10 to 5. -/
theorem leadership_not_earned :
    (∃ s, exec step sampleCoordinator [[("coordinator-2", .response ⟨true, 1⟩),
        ("coordinator-3", .response ⟨false, 7⟩)]] = some s ∧
      s.state = .Leader ∧ s.term = 7) ∧
    ¬ sampleCoordinator.LeadershipEarned [("coordinator-2", .response ⟨true, 1⟩),
      ("coordinator-3", .response ⟨false, 7⟩)] ∧
    (∃ s, exec step sampleCoordinator [[("coordinator-2", .response ⟨false, 10⟩),
        ("coordinator-3", .response ⟨false, 5⟩)]] = some s ∧ s.terms = [5, 10, 1, 0]) := by
  refine ⟨⟨_, rfl, ?_⟩, ?_, ⟨_, rfl, ?_⟩⟩
  · decide +kernel
  · intro hearned
    have hterm := hearned.ownTerm (by decide +kernel)
    revert hterm
    decide +kernel
  · decide +kernel

end Earned

end DistributedReplayCoordinator

end Arcxa.Kafka
