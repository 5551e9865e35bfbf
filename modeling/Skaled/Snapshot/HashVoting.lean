import Mathlib.Tactic.Linarith
import Skaled.Basic

/-! # Voting for the hash of a snapshot

`SnapshotHashAgent::voteForHash`: the other nodes have been asked for the hash
of a snapshot and for a share of a threshold signature on it. The agent counts
how many replies verify under the key sent with them, looks for a hash with
enough votes, combines the shares of the nodes that voted for it and verifies
the result under the common key of the chain.

The shares that verify are counted, but not told apart when shares are combined.

The threshold signatures themselves (libBLS) are a parameter: verification, and
the combination of the first shares that reach the threshold. The log message
that reads through the end iterator when no hash wins is left out.
-/

namespace Skaled

/-- The exceptions of libBLS that the agent catches at some place. -/
inductive BlsError where
  | incorrectInput
  | isNotWellFormed
  deriving DecidableEq, Repr

/-- `libBLS::Bls`. `combine` is `LagrangeCoeffs` with `SignatureRecover` on as
many numbered shares as the threshold asks for; `zero` is the signature that a
default constructor makes. -/
structure Bls (Signature PublicKey : Type) where
  verification : H256 → Signature → PublicKey → Except BlsError Bool
  combine : List (Nat × Signature) → Except BlsError Signature
  zero : Signature

/-- What the agent knows of one node of the chain: its entry in the
configuration and in `isReceived_`, `hashes_`, `signatures_` and
`public_keys_`. -/
structure SnapshotReply (Signature PublicKey : Type) where
  id : U256
  isReceived : Bool
  hash : H256
  signature : Signature
  publicKey : PublicKey

structure SnapshotHashAgent (Signature PublicKey : Type) where
  nodeId : U256
  nodes : List (SnapshotReply Signature PublicKey)
  urlToDownloadSnapshotFrom : String
  commonPublicKey : PublicKey
  configPublicKey : PublicKey
  nodesToDownloadSnapshotFrom : List Nat
  votedHash : H256 × Signature

inductive VoteException where
  | notEnoughVotes
  | bls (e : BlsError)
  deriving DecidableEq, Repr

namespace SnapshotHashAgent

variable {Signature PublicKey : Type} (bls : Bls Signature PublicKey)
  (agent : SnapshotHashAgent Signature PublicKey)

def n : Nat := agent.nodes.length

def threshold : Nat := (2 * agent.n + 1) / 3

def others : List (SnapshotReply Signature PublicKey × Nat) :=
  agent.nodes.zipIdx.filter fun node => node.1.id ≠ agent.nodeId

/-- The signature of a reply verifies under the key that came with it. An
exception counts as a failure. -/
def Verifies (node : SnapshotReply Signature PublicKey) : Prop :=
  node.isReceived ∧ bls.verification node.hash node.signature node.publicKey = .ok true

instance (node : SnapshotReply Signature PublicKey) : Decidable (Verifies bls node) :=
  inferInstanceAs (Decidable (_ ∧ _))

def verifyAllData : Nat := agent.others.countP fun node => Verifies bls node.1

def votersFor (hash : H256) : List (SnapshotReply Signature PublicKey × Nat) :=
  agent.others.filter fun node => node.1.hash = hash

def mapHash : List (H256 × Nat) :=
  ((agent.others.map (·.1.hash)).dedup.insertionSort (· ≤ ·)).map fun hash =>
    (hash, (agent.votersFor hash).length)

def sharesFor (hash : H256) : List (Nat × Signature) :=
  (agent.votersFor hash).map fun node => (node.2 + 1, node.1.signature)

/-- The signature made of the first shares; `zero` if they cannot be combined. -/
def commonSignature (hash : H256) : Signature :=
  let shares := agent.sharesFor hash
  if shares.length < agent.threshold then bls.zero
  else
    match bls.combine (shares.take agent.threshold) with
    | .ok signature => signature
    | .error _ => bls.zero

/-- Verification of the common signature, where only `IsNotWellFormed` is
caught. -/
def verifyCommon (hash : H256) (signature : Signature) (key : PublicKey) : Except BlsError Bool :=
  match bls.verification hash signature key with
  | .error .isNotWellFormed => .ok false
  | result => result

/-- The end of `voteForHash`, once a hash has enough votes. -/
def acceptHash (hash : H256) :
    Except VoteException Bool × SnapshotHashAgent Signature PublicKey :=
  let listed := { agent with
    nodesToDownloadSnapshotFrom :=
      agent.nodesToDownloadSnapshotFrom ++ (agent.votersFor hash).map (·.2) }
  let signature := agent.commonSignature bls hash
  match verifyCommon bls hash signature agent.commonPublicKey with
  | .error e => (.error (.bls e), listed)
  | .ok true => (.ok true, { listed with votedHash := (hash, signature) })
  | .ok false =>
    match verifyCommon bls hash signature agent.configPublicKey with
    | .error e => (.error (.bls e), listed)
    | .ok true =>
      (.ok true,
        { listed with
          commonPublicKey := agent.configPublicKey
          votedHash := (hash, signature) })
    | .ok false => (.ok false, listed)

def voteForHash : Except VoteException Bool × SnapshotHashAgent Signature PublicKey :=
  if 3 * agent.verifyAllData bls < 2 * agent.n + 1 ∧ agent.urlToDownloadSnapshotFrom = "" then
    (.ok false, agent)
  else
    match agent.mapHash.find? fun entry => 2 * agent.n < 3 * entry.2 with
    | none => (.error .notEnoughVotes, agent)
    | some (hash, _) => agent.acceptHash bls hash

/-! ## The hash with enough votes -/

section Votes

variable {agent}

theorem length_others_le : agent.others.length ≤ agent.n := by
  have hle :=
    List.length_filter_le (fun node => decide (node.1.id ≠ agent.nodeId)) agent.nodes.zipIdx
  simpa [others, n] using hle

variable {hash : H256}

/-- A node votes for one hash only. -/
theorem length_votersFor_add_le (agent : SnapshotHashAgent Signature PublicKey) {hash' : H256}
    (hne : hash ≠ hash') :
    (agent.votersFor hash).length + (agent.votersFor hash').length ≤ agent.n := by
  have hsplit := agent.others.length_eq_countP_add_countP fun node => node.1.hash = hash
  have hdisjoint : agent.others.countP (fun node => node.1.hash = hash') ≤
      agent.others.countP fun node => decide ¬ decide (node.1.hash = hash) = true := by
    apply List.countP_mono_left
    rintro node - hvote
    simpa [of_decide_eq_true hvote] using hne.symm
  have hothers := agent.length_others_le
  rw [votersFor, votersFor, ← List.countP_eq_length_filter, ← List.countP_eq_length_filter]
  omega

/-- More than two thirds of all nodes vote for the hash. -/
def Wins (agent : SnapshotHashAgent Signature PublicKey) (hash : H256) : Prop :=
  2 * agent.n < 3 * (agent.votersFor hash).length

theorem Wins.unique {hash' : H256} (h : agent.Wins hash) (h' : agent.Wins hash') :
    hash = hash' := by
  by_contra hne
  have hle := length_votersFor_add_le agent hne
  unfold Wins at h h'
  omega

theorem mem_mapHash_of_wins (h : agent.Wins hash) :
    (hash, (agent.votersFor hash).length) ∈ agent.mapHash := by
  have hvoters : 0 < (agent.votersFor hash).length := by
    unfold Wins at h
    omega
  obtain ⟨node, hnode⟩ := List.exists_mem_of_length_pos hvoters
  obtain ⟨hother, hvote⟩ := List.mem_filter.mp hnode
  refine List.mem_map.mpr ⟨hash, ?_, rfl⟩
  rw [List.mem_insertionSort, List.mem_dedup]
  exact List.mem_map.mpr ⟨node, hother, of_decide_eq_true hvote⟩

theorem mapHash_votes {entry : H256 × Nat} (h : entry ∈ agent.mapHash) :
    entry.2 = (agent.votersFor entry.1).length := by
  obtain ⟨hash, _, rfl⟩ := List.mem_map.mp h
  rfl

theorem wins_of_find_mapHash {entry : H256 × Nat}
    (hfind : agent.mapHash.find? (fun entry => 2 * agent.n < 3 * entry.2) = some entry) :
    agent.Wins entry.1 := by
  have hvotes := mapHash_votes (List.mem_of_find?_eq_some hfind)
  have := List.find?_some hfind
  simpa [Wins, hvotes] using this

/-- The search in `map_hash` finds the hash that wins, if there is one. -/
theorem find_mapHash_of_wins (h : agent.Wins hash) :
    agent.mapHash.find? (fun entry => 2 * agent.n < 3 * entry.2) =
      some (hash, (agent.votersFor hash).length) := by
  cases hfind : agent.mapHash.find? (fun entry => 2 * agent.n < 3 * entry.2) with
  | none =>
    have hnone := List.find?_eq_none.mp hfind _ (mem_mapHash_of_wins h)
    simp only [decide_eq_true_eq] at hnone
    exact absurd h hnone
  | some entry =>
    have heq := (wins_of_find_mapHash hfind).unique h
    rw [← heq, ← mapHash_votes (List.mem_of_find?_eq_some hfind)]

theorem threshold_le_of_wins (h : agent.Wins hash) :
    agent.threshold ≤ (agent.sharesFor hash).length := by
  unfold Wins at h
  unfold threshold sharesFor
  rw [List.length_map]
  omega

/-- The shares of different nodes have different numbers. -/
theorem nodup_sharesFor (hash : H256) : ((agent.sharesFor hash).map (·.1)).Nodup := by
  have hpositions : (agent.nodes.zipIdx.map (·.2)).Nodup := by
    rw [List.zipIdx_map_snd]
    exact List.nodup_range'
  have hvoters : ((agent.votersFor hash).map (·.2)).Nodup :=
    hpositions.sublist ((List.filter_sublist.trans List.filter_sublist).map _)
  have hshift : (agent.sharesFor hash).map (·.1) =
      ((agent.votersFor hash).map (·.2)).map (· + 1) := by
    simp [sharesFor]
  rw [hshift]
  exact hvoters.map (add_left_injective 1)

end Votes

/-! ## Shares and signatures -/

section Shares

variable (validShare : H256 → Nat → Signature → Bool)

/-- What is assumed of threshold signatures: `t` valid shares make a signature
that verifies under the key, and other shares do not. -/
structure ThresholdScheme (bls : Bls Signature PublicKey) (t : Nat)
    (validShare : H256 → Nat → Signature → Bool) (key : PublicKey) : Prop where
  recovers : ∀ hash shares, shares.length = t → (shares.map (·.1)).Nodup →
    (∀ share ∈ shares, validShare hash share.1 share.2) →
    ∃ signature, bls.combine shares = .ok signature ∧
      bls.verification hash signature key = .ok true
  only : ∀ hash shares signature, shares.length = t →
    ¬ (∀ share ∈ shares, validShare hash share.1 share.2) →
    bls.combine shares = .ok signature → bls.verification hash signature key ≠ .ok true
  zero : ∀ hash, bls.verification hash bls.zero key ≠ .ok true

/-- A wrong key from the command line: nothing verifies under it. -/
def Rejects (key : PublicKey) : Prop :=
  ∀ hash signature, verifyCommon bls hash signature key = .ok false

/-- The common key of the chain is in the configuration. The key from the
command line is the same one, or a wrong one. -/
structure KnowsKey : Prop where
  scheme : ThresholdScheme bls agent.threshold validShare agent.configPublicKey
  commandLine : agent.commonPublicKey = agent.configPublicKey ∨ Rejects bls agent.commonPublicKey

def FirstSharesValid (hash : H256) : Prop :=
  ∀ share ∈ (agent.sharesFor hash).take agent.threshold, validShare hash share.1 share.2

def ValidReply (hash : H256) (node : SnapshotReply Signature PublicKey × Nat) : Prop :=
  node.1.isReceived ∧ validShare hash (node.2 + 1) node.1.signature

instance (hash : H256) (node : SnapshotReply Signature PublicKey × Nat) :
    Decidable (ValidReply validShare hash node) :=
  inferInstanceAs (Decidable (_ ∧ _))

def honestFor (hash : H256) : List (SnapshotReply Signature PublicKey × Nat) :=
  (agent.votersFor hash).filter fun node => ValidReply validShare hash node

/-- More than two thirds of all nodes sent the hash with a valid share, which
verifies under the key they sent. -/
def HonestMajority (hash : H256) : Prop :=
  2 * agent.n < 3 * ((agent.honestFor validShare hash).countP fun node => Verifies bls node.1)

/-- An honest majority decides the vote, and a vote that fails leaves the list
of nodes alone. -/
structure Tolerant : Prop where
  decides : ∀ hash, HonestMajority bls agent validShare hash →
    (agent.voteForHash bls).1 = .ok true ∧ (agent.voteForHash bls).2.votedHash.1 = hash ∧
      (agent.voteForHash bls).2.nodesToDownloadSnapshotFrom =
        agent.nodesToDownloadSnapshotFrom ++ (agent.honestFor validShare hash).map (·.2)
  unchanged : (agent.voteForHash bls).1 ≠ .ok true →
    (agent.voteForHash bls).2.nodesToDownloadSnapshotFrom = agent.nodesToDownloadSnapshotFrom

/-- Enough replies verify, or a node to download from was given. -/
def Passes : Prop :=
  2 * agent.n + 1 ≤ 3 * agent.verifyAllData bls ∨ agent.urlToDownloadSnapshotFrom ≠ ""

/-- No bad share gets in the way: not among the first votes for the hash that
wins, and not anywhere among them when an honest majority voted for it. -/
structure NoBadShare : Prop where
  first : ∀ hash, agent.Wins hash → Passes bls agent → agent.FirstSharesValid validShare hash
  all : ∀ hash, HonestMajority bls agent validShare hash →
    ∀ node ∈ agent.votersFor hash, ValidReply validShare hash node

variable {bls agent validShare} {hash : H256}

theorem length_take_sharesFor (hwins : agent.Wins hash) :
    ((agent.sharesFor hash).take agent.threshold).length = agent.threshold := by
  rw [List.length_take]
  exact min_eq_left (threshold_le_of_wins hwins)

theorem verifyCommon_of_ok {signature : Signature} {key : PublicKey}
    (h : bls.verification hash signature key = .ok true) :
    verifyCommon bls hash signature key = .ok true := by
  rw [verifyCommon, h]

theorem verifyCommon_ne_ok {signature : Signature} {key : PublicKey}
    (h : bls.verification hash signature key ≠ .ok true) :
    verifyCommon bls hash signature key ≠ .ok true := by
  unfold verifyCommon
  split
  · nofun
  · exact h

section

variable (hkey : KnowsKey bls agent validShare) (hwins : agent.Wins hash)

include hkey hwins

/-- The common signature verifies exactly when it is made of valid shares. -/
theorem verify_commonSignature (hvalid : agent.FirstSharesValid validShare hash) :
    bls.verification hash (agent.commonSignature bls hash) agent.configPublicKey = .ok true := by
  have hlength := length_take_sharesFor hwins
  have hnodup : (((agent.sharesFor hash).take agent.threshold).map (·.1)).Nodup :=
    (nodup_sharesFor hash).sublist ((List.take_sublist _ _).map _)
  obtain ⟨signature, hcombine, hverify⟩ := hkey.scheme.recovers hash _ hlength hnodup hvalid
  unfold commonSignature
  rw [if_neg (threshold_le_of_wins hwins).not_gt, hcombine]
  exact hverify

theorem not_verify_commonSignature (hvalid : ¬ agent.FirstSharesValid validShare hash) :
    bls.verification hash (agent.commonSignature bls hash) agent.configPublicKey ≠ .ok true := by
  unfold commonSignature
  rw [if_neg (threshold_le_of_wins hwins).not_gt]
  split
  next signature hcombine =>
    exact hkey.scheme.only hash _ signature (length_take_sharesFor hwins) hvalid hcombine
  next => exact hkey.scheme.zero hash

theorem acceptHash_of_valid (hvalid : agent.FirstSharesValid validShare hash) :
    (agent.acceptHash bls hash).1 = .ok true ∧
      (agent.acceptHash bls hash).2.votedHash.1 = hash := by
  have hconfig := verifyCommon_of_ok (verify_commonSignature hkey hwins hvalid)
  unfold acceptHash
  dsimp only
  obtain hsame | hwrong := hkey.commandLine
  · rw [hsame, hconfig]
    exact ⟨rfl, rfl⟩
  · rw [hwrong, hconfig]
    exact ⟨rfl, rfl⟩

theorem acceptHash_of_invalid (hvalid : ¬ agent.FirstSharesValid validShare hash) :
    (agent.acceptHash bls hash).1 ≠ .ok true := by
  have hconfig := verifyCommon_ne_ok (not_verify_commonSignature hkey hwins hvalid)
  have hline : verifyCommon bls hash (agent.commonSignature bls hash) agent.commonPublicKey ≠
      .ok true := by
    obtain hsame | hwrong := hkey.commandLine
    · rwa [hsame]
    · rw [hwrong]
      nofun
  unfold acceptHash
  dsimp only
  split
  · nofun
  next heq => exact absurd heq hline
  · split
    · nofun
    next heq => exact absurd heq hconfig
    · nofun

end

/-! ## The vote -/

/-- All who voted for the hash are listed before its signature is verified. -/
theorem acceptHash_listed (bls : Bls Signature PublicKey)
    (agent : SnapshotHashAgent Signature PublicKey) (hash : H256) :
    (agent.acceptHash bls hash).2.nodesToDownloadSnapshotFrom =
      agent.nodesToDownloadSnapshotFrom ++ (agent.votersFor hash).map (·.2) := by
  unfold acceptHash
  dsimp only
  split
  · rfl
  · rfl
  · split <;> rfl

theorem HonestMajority.wins (h : HonestMajority bls agent validShare hash) : agent.Wins hash := by
  have hcount := List.countP_le_length (l := agent.honestFor validShare hash)
    (p := fun node => decide (Verifies bls node.1))
  have hfilter : (agent.honestFor validShare hash).length ≤ (agent.votersFor hash).length :=
    List.length_filter_le _ _
  unfold HonestMajority at h
  unfold Wins
  omega

theorem HonestMajority.passes (h : HonestMajority bls agent validShare hash) :
    Passes bls agent := by
  have hsublist : (agent.honestFor validShare hash).Sublist agent.others :=
    List.filter_sublist.trans List.filter_sublist
  have hcount := hsublist.countP_le (p := fun node => decide (Verifies bls node.1))
  unfold HonestMajority at h
  refine .inl ?_
  unfold verifyAllData
  omega

/-- A hash that wins is accepted or refused by its signature. -/
theorem voteForHash_of_wins (hwins : agent.Wins hash) (hpasses : Passes bls agent) :
    agent.voteForHash bls = agent.acceptHash bls hash := by
  unfold voteForHash
  rw [if_neg, find_mapHash_of_wins hwins]
  rintro ⟨hfew, hurl⟩
  obtain hmany | hgiven := hpasses
  · omega
  · exact hgiven hurl

/-- Without a winner, or with too few signatures, nothing is listed. -/
theorem voteForHash_listed (bls : Bls Signature PublicKey)
    (agent : SnapshotHashAgent Signature PublicKey) :
    (agent.voteForHash bls).2.nodesToDownloadSnapshotFrom = agent.nodesToDownloadSnapshotFrom ∨
      ∃ hash, agent.Wins hash ∧ Passes bls agent := by
  unfold voteForHash
  split
  · exact .inl rfl
  next hchecks =>
    split
    · exact .inl rfl
    next entry hash votes hfind =>
      refine .inr ⟨hash, wins_of_find_mapHash hfind, ?_⟩
      by_contra hpasses
      unfold Passes at hpasses
      rw [not_or, not_not] at hpasses
      exact hchecks ⟨by omega, hpasses.2⟩

theorem NoBadShare.tolerant (hkey : KnowsKey bls agent validShare)
    (h : NoBadShare bls agent validShare) : Tolerant bls agent validShare where
  decides := by
    intro hash hmajority
    have hwins := hmajority.wins
    have hvalid := h.first hash hwins hmajority.passes
    obtain ⟨hresult, hvoted⟩ := acceptHash_of_valid hkey hwins hvalid
    have hhonest : agent.honestFor validShare hash = agent.votersFor hash :=
      List.filter_eq_self.mpr fun node hnode => decide_eq_true (h.all hash hmajority node hnode)
    rw [voteForHash_of_wins hwins hmajority.passes, hhonest]
    exact ⟨hresult, hvoted, acceptHash_listed bls agent hash⟩
  unchanged := by
    intro hfailed
    obtain hlisted | ⟨hash, hwins, hpasses⟩ := agent.voteForHash_listed bls
    · exact hlisted
    · obtain ⟨hresult, _⟩ := acceptHash_of_valid hkey hwins (h.first hash hwins hpasses)
      rw [voteForHash_of_wins hwins hpasses] at hfailed
      exact absurd hresult hfailed

theorem Tolerant.noBadShare (hkey : KnowsKey bls agent validShare)
    (h : Tolerant bls agent validShare) : NoBadShare bls agent validShare where
  first := by
    intro hash hwins hpasses
    by_contra hvalid
    have hunchanged := h.unchanged
    rw [voteForHash_of_wins hwins hpasses, acceptHash_listed] at hunchanged
    -- the voters were listed, and there are some
    have hempty := List.append_right_eq_self.mp
      (hunchanged (acceptHash_of_invalid hkey hwins hvalid))
    have hvoters : (agent.votersFor hash).length = 0 := by
      simpa using congrArg List.length hempty
    unfold Wins at hwins
    omega
  all := by
    intro hash hmajority node hnode
    obtain ⟨_, _, hlisted⟩ := h.decides hash hmajority
    rw [voteForHash_of_wins hmajority.wins hmajority.passes, acceptHash_listed] at hlisted
    have hlength := congrArg List.length (List.append_cancel_left hlisted)
    rw [List.length_map, List.length_map] at hlength
    exact of_decide_eq_true (List.length_filter_eq_length_iff.mp hlength.symm node hnode)

/-- Faulty nodes are tolerated exactly when no bad share gets in the way of the
hash that wins. -/
theorem tolerant_iff_noBadShare (hkey : KnowsKey bls agent validShare) :
    Tolerant bls agent validShare ↔ NoBadShare bls agent validShare :=
  ⟨Tolerant.noBadShare hkey, NoBadShare.tolerant hkey⟩

end Shares

/-! ## Seven nodes -/

/-- Signatures that say themselves whether they are valid. -/
def sampleBls : Bls Bool Unit where
  verification _ signature _ := .ok signature
  combine shares := .ok (shares.all (·.2))
  zero := false

def sampleReply (id : U256) : SnapshotReply Bool Unit :=
  { id, isReceived := true, hash := 5, signature := true, publicKey := () }

/-- The first of seven nodes asks the others. Five of them vote for one hash with valid
shares; the second node sends a bad share, for a hash that is given. -/
def sampleAgent (hash : H256) : SnapshotHashAgent Bool Unit where
  nodeId := 0
  nodes := [sampleReply 0, { sampleReply 1 with hash, signature := false }, sampleReply 2,
    sampleReply 3, sampleReply 4, sampleReply 5, sampleReply 6]
  urlToDownloadSnapshotFrom := ""
  commonPublicKey := ()
  configPublicKey := ()
  nodesToDownloadSnapshotFrom := []
  votedHash := (0, false)

def sampleShare (_ : H256) (_ : Nat) (signature : Bool) : Bool := signature

theorem sampleScheme (t : Nat) : ThresholdScheme sampleBls t sampleShare () where
  recovers := by
    intro hash shares _ _ hvalid
    have hall : shares.all (·.2) = true := List.all_eq_true.mpr hvalid
    exact ⟨true, congrArg Except.ok hall, rfl⟩
  only := by
    intro hash shares signature _ hinvalid hcombine hverify
    cases hcombine
    exact hinvalid (List.all_eq_true.mp (Except.ok.inj hverify))
  zero := nofun

theorem sampleAgent_knowsKey (hash : H256) :
    KnowsKey sampleBls (sampleAgent hash) sampleShare :=
  ⟨sampleScheme _, .inl rfl⟩

/-- The bad share is for another hash, and the vote of the other five nodes decides. -/
theorem sampleAgent_tolerant :
    KnowsKey sampleBls (sampleAgent 6) sampleShare ∧
      HonestMajority sampleBls (sampleAgent 6) sampleShare 5 ∧
      Tolerant sampleBls (sampleAgent 6) sampleShare := by
  have hwins : (sampleAgent 6).Wins 5 := by
    unfold Wins
    decide
  have hvalid : ∀ node ∈ (sampleAgent 6).votersFor 5, ValidReply sampleShare 5 node := by
    unfold ValidReply
    decide
  refine ⟨sampleAgent_knowsKey 6, by unfold HonestMajority; decide,
    (tolerant_iff_noBadShare (sampleAgent_knowsKey 6)).mpr ⟨?_, ?_⟩⟩
  · intro hash hwins' _ share hshare
    obtain rfl := hwins.unique hwins'
    obtain ⟨node, hnode, rfl⟩ := List.mem_map.mp (List.mem_of_mem_take hshare)
    exact (hvalid node hnode).2
  · intro hash hmajority
    obtain rfl := hwins.unique hmajority.wins
    exact hvalid

/-- One bad share in front: five honest nodes of seven do not decide the vote,
which fails, and leaves all who voted in the list, the faulty node first. -/
theorem voteForHash_bad_share :
    KnowsKey sampleBls (sampleAgent 5) sampleShare ∧
      HonestMajority sampleBls (sampleAgent 5) sampleShare 5 ∧
      ((sampleAgent 5).voteForHash sampleBls).1 = .ok false ∧
      ((sampleAgent 5).voteForHash sampleBls).2.nodesToDownloadSnapshotFrom =
        [1, 2, 3, 4, 5, 6] := by
  refine ⟨sampleAgent_knowsKey 5, ?_, by rfl, by rfl⟩
  unfold HonestMajority
  decide

end SnapshotHashAgent

end Skaled
