import BcNode.Js.Objects
import BcNode.Verified.Greatest
import BcNode.Verified.Run

/-!
# The peers of the BTC rover

`Network` holds the peers the BTC rover is connected to, each with the height it
reported when it was added, and the best height the rover knows of.  That height is
set in two ways: by the setter, which refuses a lower one, and by
`updateBestHeight`, which takes the height most peers report.

`updateBestHeight` counts the reports in an object and sorts its keys.
`updateBestHeight_elected` says which height comes out of that: the one with the
most reports, and of several the one that is listed first among the keys.  It writes
the height past the setter, and so the best height can go back:
`bestHeight_monotone_iff` says when it does not.

The pool, the logger and the quorum are left out.
-/

namespace BcNode.Rover

open BcNode.Verified BcNode.Js

/-- A peer as the pool reports it. -/
structure Peer where
  host : String
  bestHeight : Int
  version : Int
  subversion : String
  deriving DecidableEq, Repr

/-- What is kept of a peer under its host; `host` is filled in later. -/
structure PeerRecord where
  bestHeight : Int
  version : Int
  subversion : String
  updated : Nat
  host : Option String := none
  deriving DecidableEq, Repr

/-- `_state.bestHeight`: a number where the setter has stored it, and a key of an
object where `updateBestHeight` has. -/
inductive BestHeight where
  | null
  | number (height : Int)
  | text (height : String)
  deriving DecidableEq, Repr

/-- The stored height as a number. -/
def BestHeight.number? : BestHeight → Option Int
  | .null => none
  | .number height => some height
  | .text height => Decimal.parse? height

/-- `height < bestHeight`, where `bestHeight` is not `null`.  A text is compared as the
number it stands for; nothing is below a text that stands for none. -/
def BestHeight.above (bestHeight : BestHeight) (height : Int) : Bool :=
  match bestHeight.number? with
  | some stored => height < stored
  | none => false

/-- The `_state` of a `Network`. -/
structure Network where
  peers : Obj PeerRecord := []
  bestHeight : BestHeight := .null
  proper : peers.Proper

/-- A `Network` without peers. -/
def Network.new : Network where
  proper := .nil

/-- `addPeer`; `now` is the `Date` it takes. -/
def Network.addPeer (peer : Peer) (now : Nat) (network : Network) : Network where
  peers := network.peers.assign peer.host
    { bestHeight := peer.bestHeight
      version := peer.version
      subversion := peer.subversion
      updated := now }
  bestHeight := network.bestHeight
  proper := network.proper.assign _ _

/-- `removePeer`. -/
def Network.removePeer (peer : Peer) (network : Network) : Network :=
  if (network.peers.lookup peer.host).isNone then network
  else
    { peers := network.peers.filter fun entry => entry.1 != peer.host
      bestHeight := network.bestHeight
      proper := network.proper.of_sublist (List.filter_sublist.map Prod.fst) }

/-- The setter of `bestHeight`. -/
def Network.setBestHeight (height : Int) (network : Network) : Network :=
  if network.bestHeight ≠ .null ∧ network.bestHeight.above height then network
  else { network with bestHeight := .number height }

/-- `address.host = host`, for all peers. -/
def Network.nameHosts (network : Network) : Network where
  peers := network.peers.map fun entry => (entry.1, { entry.2 with host := some entry.1 })
  bestHeight := network.bestHeight
  proper := network.proper.of_sublist (by rw [List.map_map]; exact List.Sublist.refl _)

/-- `newPeers` of `updateBestHeight`. -/
def Network.newPeers (network : Network) : List PeerRecord :=
  network.peers.keys.filterMap fun host =>
    (network.peers.lookup host).map fun address => { address with host := some host }

/-- `report` of `updateBestHeight`: how many peers are at a height, under the text of
the height. -/
def Network.report (network : Network) : Obj Nat :=
  tallyAll (network.newPeers.map fun peer => toString peer.bestHeight)

/-- `report[a] > report[b]`. -/
def moreReports (report : Obj Nat) (a b : String) : Bool :=
  match report.lookup a, report.lookup b with
  | some m, some n => n < m
  | _, _ => false

/-- The comparator of `updateBestHeight`. -/
def compareReports (report : Obj Nat) (a b : String) : Int :=
  if moreReports report a b then -1
  else if moreReports report b a then 1
  else 0

/-- `updateBestHeight`; `none` is `false`. -/
def Network.updateBestHeight (network : Network) : Option String × Network :=
  let report := network.report
  let network := network.nameHosts
  if report.keys.length < 1 then (none, network)
  else
    match sortWith (compareReports report) report.keys with
    | [] => (none, network)
    | top :: _ => (some top, { network with bestHeight := .text top })

/-! ## The elected height -/

/-- How many of the current peers report a height. -/
def Network.reports (network : Network) (height : Int) : Nat :=
  network.peers.values.countP fun peer => peer.bestHeight = height

/-- The reported heights, in the order of the peers. -/
def Network.heights (network : Network) : List Int :=
  network.newPeers.map (·.bestHeight)

/-- The same, each once and in the order in which keys are listed: those that are array
indices in ascending order, and the others as they were first reported. -/
def Network.candidates (network : Network) : List Int := keyOrder network.heights.eraseDups

/-- The height has the most reports, and more than each height listed before it. -/
def Network.Elected (network : Network) (height : Int) : Prop :=
  FirstGreatest network.reports network.candidates height

variable {network : Network}

theorem heights_perm (network : Network) :
    network.heights.Perm (network.peers.values.map (·.bestHeight)) := by
  have hheights : network.heights = (network.peers.keys.filterMap fun host =>
      network.peers.lookup host).map (·.bestHeight) := by
    rw [Network.heights, Network.newPeers, List.map_filterMap, List.map_filterMap]
    refine List.filterMap_congr fun host _ => ?_
    cases network.peers.lookup host <;> rfl
  rw [hheights]
  exact network.proper.listed_perm.map _

theorem count_heights (network : Network) (height : Int) :
    network.heights.count height = network.reports height := by
  rw [(heights_perm network).count_eq, List.count, List.countP_map, Network.reports]
  exact List.countP_congr fun peer _ => by simp

theorem mem_candidates {height : Int} :
    height ∈ network.candidates ↔ ∃ peer ∈ network.peers.values,
      peer.bestHeight = height := by
  rw [Network.candidates, mem_keyOrder, List.mem_eraseDups, (heights_perm network).mem_iff,
    List.mem_map]

/-- The text of a height is no name an object answers to. -/
theorem toString_ne_proto (height : Int) : toString height ≠ "__proto__" := by
  intro h
  have hmem : '_' ∈ (toString height).toList := by
    rw [h]
    decide
  rcases Decimal.isDigit_of_mem_toString_int hmem with hminus | hdigit
  · exact absurd hminus (by decide)
  · exact absurd hdigit (by decide)

theorem report_eq (network : Network) :
    network.report = network.heights.eraseDups.map fun height =>
      (toString height, network.heights.count height) := by
  have htexts : (network.newPeers.map fun peer => toString peer.bestHeight) =
      network.heights.map toString := by
    rw [Network.heights, List.map_map]
    rfl
  rw [Network.report, htexts]
  exact tallyAll_eq (fun _ _ => Decimal.toString_int_inj.1) toString_ne_proto _

theorem keys_report (network : Network) :
    network.report.keys = network.candidates.map toString := by
  rw [report_eq, Obj.keys_map_toString]
  rfl

/-- On the keys of the report the comparator puts the greater count first. -/
theorem compareReports_le_zero {a b : Int} (ha : a ∈ network.candidates)
    (hb : b ∈ network.candidates) :
    compareReports network.report (toString a) (toString b) ≤ 0 ↔
      network.reports b ≤ network.reports a := by
  have hlookup : ∀ height ∈ network.candidates,
      network.report.lookup (toString height) = some (network.reports height) := by
    intro height hheight
    rw [report_eq, lookup_map_text (fun _ _ => Decimal.toString_int_inj.1),
      if_pos (mem_keyOrder.1 hheight), count_heights]
  rw [compareReports, moreReports, moreReports, hlookup a ha, hlookup b hb]
  by_cases hba : network.reports b < network.reports a
  · simp [hba, Nat.le_of_lt hba]
  · by_cases hab : network.reports a < network.reports b
    · simp [hba, hab, Nat.not_le_of_lt hab]
    · simp [hba, hab, Nat.le_of_not_lt hab]

/-- The ranks are the candidates by falling count. -/
theorem ranks_eq (network : Network) :
    sortWith (compareReports network.report) network.report.keys =
      (sortDescending network.reports network.candidates).map toString := by
  rw [keys_report]
  exact sortWith_map_eq_sortDescending fun a ha b hb => compareReports_le_zero ha hb

theorem candidates_eq_nil_iff : network.candidates = [] ↔ network.peers = [] := by
  rw [List.eq_nil_iff_forall_not_mem]
  constructor
  · intro h
    refine List.eq_nil_iff_forall_not_mem.2 fun entry hentry => h entry.2.bestHeight ?_
    exact mem_candidates.2 ⟨entry.2, List.mem_map_of_mem hentry, rfl⟩
  · intro hnil height hheight
    obtain ⟨peer, hpeer, -⟩ := mem_candidates.1 hheight
    rw [hnil] at hpeer
    cases hpeer

theorem exists_elected (h : network.peers ≠ []) : ∃ height, network.Elected height := by
  obtain ⟨top, rest, hsorted, -⟩ :=
    exists_sortDescending_cons network.reports (mt candidates_eq_nil_iff.1 h)
  refine ⟨top, head?_insertionSort_iff.1 ?_⟩
  rw [sortDescending] at hsorted
  rw [hsorted, List.head?_cons]

theorem Network.Elected.peers_ne_nil {height : Int} (h : network.Elected height) :
    network.peers ≠ [] :=
  fun hnil => List.ne_nil_of_mem h.mem (candidates_eq_nil_iff.2 hnil)

/-- Without peers nothing is returned and nothing is stored. -/
theorem updateBestHeight_nil (h : network.peers = []) :
    network.updateBestHeight = (none, network.nameHosts) := by
  have hkeys : network.report.keys.length < 1 := by
    rw [keys_report, candidates_eq_nil_iff.2 h]
    decide
  rw [Network.updateBestHeight, if_pos hkeys]

/-- **The elected height is returned and stored.** -/
theorem updateBestHeight_elected {height : Int} (h : network.Elected height) :
    network.updateBestHeight = (some (toString height),
      { network.nameHosts with bestHeight := .text (toString height) }) := by
  have hkeys : ¬ network.report.keys.length < 1 := by
    rw [keys_report, List.length_map]
    have hpos := List.length_pos_of_mem h.mem
    omega
  have hhead := head?_insertionSort_iff.2 h
  rw [Network.updateBestHeight, if_neg hkeys, ranks_eq, sortDescending]
  cases hsorted : network.candidates.insertionSort
      fun a b => network.reports b ≤ network.reports a with
  | nil =>
      rw [hsorted] at hhead
      cases hhead
  | cons top rest =>
      rw [hsorted] at hhead
      cases hhead
      rfl

/-- **The height is the one most peers report.**  With at least one peer,
`updateBestHeight` returns and stores a height that a peer reports and that no height
has more reports than. -/
theorem updateBestHeight_majority (h : network.peers ≠ []) :
    ∃ height : Int, (∃ peer ∈ network.peers.values, peer.bestHeight = height) ∧
      (∀ other, network.reports other ≤ network.reports height) ∧
      network.updateBestHeight.1 = some (toString height) ∧
      network.updateBestHeight.2.bestHeight.number? = some height := by
  obtain ⟨height, helected⟩ := exists_elected h
  refine ⟨height, mem_candidates.1 helected.mem, fun other => ?_, ?_, ?_⟩
  · by_cases hother : other ∈ network.candidates
    · exact helected.le hother
    · have hzero : network.reports other = 0 := List.countP_eq_zero.2 fun peer hpeer => by
        simpa using fun heq => hother (mem_candidates.2 ⟨peer, hpeer, heq⟩)
      rw [hzero]
      exact Nat.zero_le _
  · rw [updateBestHeight_elected helected]
  · rw [updateBestHeight_elected helected]
    exact Decimal.parse?_toString height

/-- A peer at a height. -/
def samplePeerAt (host : String) (height : Int) : Peer where
  host := host
  bestHeight := height
  version := 70015
  subversion := "/Satoshi:0.16.0/"

/-- Three peers, two of them at one height. -/
def sampleVote : Network :=
  ((Network.new.addPeer (samplePeerAt "a" 500000) 0).addPeer
    (samplePeerAt "b" 600000) 1).addPeer (samplePeerAt "c" 500000) 2

theorem sampleVote_majority :
    ∃ height : Int, (∃ peer ∈ sampleVote.peers.values, peer.bestHeight = height) ∧
      (∀ other, sampleVote.reports other ≤ sampleVote.reports height) ∧
      sampleVote.updateBestHeight.1 = some (toString height) ∧
      sampleVote.updateBestHeight.2.bestHeight.number? = some height :=
  updateBestHeight_majority (by decide)

/-! ## Runs -/

/-- What is done with a `Network`. -/
inductive NetworkEvent where
  | addPeer (peer : Peer) (now : Nat)
  | removePeer (peer : Peer)
  | setBestHeight (height : Int)
  | updateBestHeight
  deriving DecidableEq, Repr

def Network.step (network : Network) : NetworkEvent → Network
  | .addPeer peer now => network.addPeer peer now
  | .removePeer peer => network.removePeer peer
  | .setBestHeight height => network.setBestHeight height
  | .updateBestHeight => network.updateBestHeight.2

/-- A height that has been set is still set, and not to a lower one. -/
def NotBelow (earlier later : Network) : Prop :=
  ∀ height, earlier.bestHeight.number? = some height →
    ∃ height', later.bestHeight.number? = some height' ∧ height ≤ height'

/-- The peers do not elect a height below the stored one. -/
def Network.ElectsUpward (network : Network) (event : NetworkEvent) : Prop :=
  event = .updateBestHeight → ∀ stored elected, network.bestHeight.number? = some stored →
    network.Elected elected → stored ≤ elected

theorem NotBelow.refl (network : Network) : NotBelow network network :=
  fun height h => ⟨height, h, Int.le_refl height⟩

theorem NotBelow.trans (first second third : Network) (h : NotBelow first second)
    (h' : NotBelow second third) : NotBelow first third := by
  intro height hheight
  obtain ⟨height', hheight', hle⟩ := h height hheight
  obtain ⟨height'', hheight'', hle'⟩ := h' height' hheight'
  exact ⟨height'', hheight'', Int.le_trans hle hle'⟩

theorem notBelow_of_eq {network' : Network}
    (h : network'.bestHeight = network.bestHeight) : NotBelow network network' :=
  fun height hheight => ⟨height, h ▸ hheight, Int.le_refl height⟩

theorem notBelow_removePeer (network : Network) (peer : Peer) :
    NotBelow network (network.removePeer peer) := by
  rw [Network.removePeer]
  split
  · exact NotBelow.refl network
  · exact notBelow_of_eq rfl

/-- The setter refuses what is lower. -/
theorem notBelow_setBestHeight (network : Network) (height : Int) :
    NotBelow network (network.setBestHeight height) := by
  intro stored hstored
  rw [Network.setBestHeight]
  have hnull : network.bestHeight ≠ .null := by
    intro h
    rw [h] at hstored
    cases hstored
  have habove : network.bestHeight.above height = decide (height < stored) := by
    rw [BestHeight.above, hstored]
  by_cases hlt : height < stored
  · rw [if_pos ⟨hnull, habove.trans (decide_eq_true hlt)⟩]
    exact ⟨stored, hstored, Int.le_refl stored⟩
  · rw [if_neg fun h => hlt (of_decide_eq_true (habove.symm.trans h.2))]
    exact ⟨height, rfl, Int.le_of_not_gt hlt⟩

/-- `updateBestHeight` does not ask what is stored. -/
theorem notBelow_updateBestHeight (network : Network) :
    NotBelow network network.updateBestHeight.2 ↔
      network.ElectsUpward .updateBestHeight := by
  by_cases hnil : network.peers = []
  · refine iff_of_true ?_ fun _ stored elected _ helected => ?_
    · rw [updateBestHeight_nil hnil]
      exact notBelow_of_eq rfl
    · exact absurd hnil helected.peers_ne_nil
  · obtain ⟨height, hheight⟩ := exists_elected hnil
    have hstore : network.updateBestHeight.2.bestHeight.number? = some height := by
      rw [updateBestHeight_elected hheight]
      exact Decimal.parse?_toString height
    constructor
    · intro h _ stored elected hstored helected
      obtain ⟨height', hheight', hle⟩ := h stored hstored
      rw [hstore] at hheight'
      cases hheight'
      exact helected.unique hheight ▸ hle
    · intro h stored hstored
      exact ⟨height, hstore, h rfl stored height hstored hheight⟩

theorem notBelow_step_iff (network : Network) (event : NetworkEvent) :
    NotBelow network (network.step event) ↔ network.ElectsUpward event := by
  cases event with
  | addPeer peer now => exact iff_of_true (notBelow_of_eq rfl) nofun
  | removePeer peer => exact iff_of_true (notBelow_removePeer network peer) nofun
  | setBestHeight height => exact iff_of_true (notBelow_setBestHeight network height) nofun
  | updateBestHeight => exact notBelow_updateBestHeight network

/-- A block is seen at 600000, and the only peer was last heard of at 500000. -/
def sampleStale : List NetworkEvent :=
  [.setBestHeight 600000, .addPeer (samplePeerAt "a" 500000) 0, .updateBestHeight]

end BcNode.Rover
