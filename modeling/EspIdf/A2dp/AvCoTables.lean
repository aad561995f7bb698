import EspIdf.A2dp.AvCo

/-!
# The tables of end points over runs

* `Observed`, `observe` : the control block with what each peer reported since its latest discovery;
* `SafeStep` : tables reset by discovery results, a selected source that was reported, indices within the tables;
* `KeepsSources` : discovery results for a peer whose table of sources is not empty;
* `Tables`, `PeerInv`, `Inv` : what the calm steps keep;
* `tables_safe_iff` : all steps of a run are safe exactly when none of them keeps sources.
-/

namespace EspIdf.A2dp.AvCo

variable {build : Build} {cb : Cb} {event : Event} {i : Nat}

/-! ## What a run is held to -/

/-- The event starts over with the discovery results of a peer. -/
def StartsDiscovery (cb : Cb) (i : Nat) : Event → Prop
  | .discRes results => indexOf results.hndl = i
  | .cfgRes results => indexOf results.hndl = i ∧ ∃ peer, cb.getPeer results.hndl = some peer ∧ peer.gotDiscRes = false
  | _ => False

/-- The control block, and the end points that each peer reported since its latest discovery results. -/
structure Observed where
  cb : Cb
  reported : Nat → List Sep

/-- The end points that a peer has reported after an event. -/
def reportedAfter (cb : Cb) (reported : Nat → List Sep) (event : Event) (i : Nat) : List Sep :=
  match event with
  | .discRes results => if indexOf results.hndl = i then [] else reported i
  | .cfgRes results =>
    if indexOf results.hndl = i ∧ (cb.getPeer results.hndl).any (fun peer => !peer.gotDiscRes) then [] else reported i
  | .getConfig cap => if indexOf cap.hndl = i then cap.sep :: reported i else reported i
  | .close hndl => if indexOf hndl = i then [] else reported i
  | .setConfig _ | .open _ _ => reported i

def observe (build : Build) (o : Observed) (event : Event) : Observed where
  cb := (step build o.cb event).1
  reported := reportedAfter o.cb o.reported event

/-- The state after a history, the latest event first. -/
def observed (build : Build) : List Event → Observed
  | [] => { cb := .init build, reported := fun _ => [] }
  | event :: earlier => observe build (observed build earlier) event

/-- The source that is selected. -/
def Peer.selectedSrc (peer : Peer) : Option Sep := peer.pSrc.bind fun index => peer.srcs[index]?

/-- Every index of a record is within its table. -/
structure Peer.InTables (build : Build) (peer : Peer) : Prop where
  snks : peer.snks.length = build.sepCount
  srcs : peer.srcs.length = build.sepCount
  numSupSnks : peer.numSupSnks.toNat ≤ build.sepCount
  numSupSrcs : peer.numSupSrcs.toNat ≤ build.sepCount
  pSnk : ∀ index, peer.pSnk = some index → index < build.sepCount
  pSrc : ∀ index, peer.pSrc = some index → index < peer.numSupSrcs.toNat

/-- A step of a run, by what holds after it. -/
structure SafeStep (build : Build) (o : Observed) (event : Event) : Prop where
  /-- Discovery results find, or leave, the tables of their peer empty. -/
  reset : ∀ (i : Nat) (peer : Peer), StartsDiscovery o.cb i event → (observe build o event).cb.peers[i]? = some peer →
    peer.numRxSnks = 0 ∧ peer.numRxSrcs = 0 ∧ peer.numSupSnks = 0 ∧ peer.numSupSrcs = 0
  /-- A selected source was reported in the current discovery, and is what the configuration is built and returned for. -/
  selected : ∀ cap before, event = .getConfig cap → o.cb.getPeer cap.hndl = some before →
    before.uuidToConnect = uuidAudioSource → ∀ reply, .config reply ∈ (step build o.cb event).2 → reply.success = true →
    ∃ after src, (observe build o event).cb.getPeer cap.hndl = some after ∧ after.selectedSrc = some src ∧
      src ∈ (observe build o event).reported (indexOf cap.hndl) ∧ reply.sepInfoIdx = src.sepInfoIdx ∧
      reply.codecInfo = buildSrcCfg build src.codecCaps cap.torn ∧ after.codecCfg = reply.codecInfo
  inTables : ∀ (i : Nat) (peer : Peer), (observe build o event).cb.peers[i]? = some peer → peer.InTables build

/-- Discovery results come for a peer whose table of sources is not empty. -/
def KeepsSources (cb : Cb) (event : Event) : Prop :=
  ∃ i peer, StartsDiscovery cb i event ∧ cb.peers[i]? = some peer ∧ peer.numSupSrcs ≠ 0

/-! ## Tables -/

/-- The entries that count were reported. -/
def Reported (table : List Sep) (count : Octet) (reported : List Sep) : Prop :=
  ∀ index sep, index < count.toNat → table[index]? = some sep → sep ∈ reported

theorem reported_empty (table : List Sep) (reported : List Sep) : Reported table 0 reported := by
  intro index sep hindex
  exact absurd hindex (Nat.not_lt_zero index)

theorem sepCount_lt (build : Build) : build.sepCount < 256 := by
  have hbit : ∀ b : Bool, b.toNat ≤ 1 := by decide
  unfold Build.sepCount
  have := hbit build.aptx
  have := hbit build.ldac
  have := hbit build.opus
  have := hbit build.lc3plus
  have := hbit build.lhdcv5
  have := hbit build.aac
  omega

theorem count_succ {count : Octet} (h : count.toNat < 255) : (count + 1).toNat = count.toNat + 1 := by
  have hone : (1 : Octet).toNat = 1 := rfl
  rw [BitVec.toNat_add, hone]
  omega

section Store

variable {supported : Bool} {table : List Sep} {count : Octet} {sep : Sep} {reported : List Sep}

theorem storeSep_length : (storeSep supported table count sep).1.length = table.length := by
  unfold storeSep
  split
  · simp
  · rfl

/-- An entry is saved behind the others, or nothing changes. -/
theorem storeSep_count (hroom : count.toNat ≤ table.length) (hlength : table.length < 256) :
    count.toNat ≤ (storeSep supported table count sep).2.toNat ∧
      (storeSep supported table count sep).2.toNat ≤ table.length := by
  unfold storeSep
  split
  · rename_i h
    rw [count_succ (by omega)]
    exact ⟨Nat.le_succ _, h.2⟩
  · exact ⟨Nat.le_refl _, hroom⟩

theorem storeSep_reported (hlength : table.length < 256) (h : Reported table count reported) :
    Reported (storeSep supported table count sep).1 (storeSep supported table count sep).2 (sep :: reported) := by
  unfold storeSep
  split
  · rename_i hstore
    intro index sep' hindex hsep'
    rw [count_succ (by omega)] at hindex
    by_cases hlast : count.toNat = index
    · subst hlast
      rw [List.getElem?_set_self hstore.2] at hsep'
      obtain rfl := Option.some.inj hsep'
      exact List.mem_cons_self
    · rw [List.getElem?_set_ne hlast] at hsep'
      exact List.mem_cons_of_mem _ (h index sep' (by omega) hsep')
  · intro index sep' hindex hsep'
    exact List.mem_cons_of_mem _ (h index sep' hindex hsep')

theorem findSep_lt {codecIndex : List Octet → Option Codec} {index : Nat} :
    ∀ {n : Nat}, findSep codecIndex table n = some index → index < n
  | 0, h => nomatch h
  | n + 1, h => by
    unfold findSep at h
    split at h
    · obtain rfl := Option.some.inj h
      exact Nat.lt_succ_self _
    · exact Nat.lt_succ_of_lt (findSep_lt h)

end Store

/-! ## One peer -/

/-- The indices are within the tables, and the entries that count were reported. -/
structure PeerInv (build : Build) (peer : Peer) (reported : List Sep) : Prop where
  inTables : peer.InTables build
  srcs : Reported peer.srcs peer.numSupSrcs reported
  snks : Reported peer.snks peer.numSupSnks reported

variable {peer : Peer} {reported : List Sep}

theorem peerInv_zero (build : Build) (reported : List Sep) : PeerInv build (.zero build) reported where
  inTables :=
    { snks := List.length_replicate
      srcs := List.length_replicate
      numSupSnks := Nat.zero_le _
      numSupSrcs := Nat.zero_le _
      pSnk := fun _ h => nomatch h
      pSrc := fun _ h => nomatch h }
  srcs := reported_empty _ _
  snks := reported_empty _ _

/-- Discovery results start over, when no source is left from before. -/
theorem PeerInv.copyResults (h : PeerInv build peer reported) (hempty : peer.numSupSrcs = 0) (results : Results) :
    PeerInv build (peer.copyResults results) [] where
  inTables := { h.inTables with numSupSnks := Nat.zero_le _ }
  srcs := by
    have hnone := reported_empty peer.srcs []
    rw [← hempty] at hnone
    exact hnone
  snks := reported_empty _ _

theorem PeerInv.discRes (h : PeerInv build peer reported) (hempty : peer.numSupSrcs = 0) (results : Results) :
    PeerInv build (peer.discRes results) [] :=
  have hcopy := h.copyResults hempty results
  ⟨{ hcopy.inTables with }, hcopy.srcs, hcopy.snks⟩

theorem PeerInv.cfgRes_later (h : PeerInv build peer reported) (hgot : peer.gotDiscRes = true) (results : Results) :
    PeerInv build (peer.cfgRes results) reported := by
  unfold Peer.cfgRes
  rw [if_pos hgot]
  exact ⟨{ h.inTables with }, h.srcs, h.snks⟩

theorem PeerInv.cfgRes_first (h : PeerInv build peer reported) (hempty : peer.numSupSrcs = 0)
    (hgot : peer.gotDiscRes = false) (results : Results) : PeerInv build (peer.cfgRes results) [] := by
  have hcopy := h.copyResults hempty results
  unfold Peer.cfgRes
  rw [if_neg (by rw [hgot]; exact Bool.false_ne_true)]
  exact ⟨{ hcopy.inTables with }, hcopy.srcs, hcopy.snks⟩

/-- The selected source was reported and is what the reply is about. -/
def SelectedFor (build : Build) (cap : Capability) (after : Peer) (reply : Reply) (reported : List Sep) : Prop :=
  ∃ src, after.selectedSrc = some src ∧ src ∈ reported ∧ reply.sepInfoIdx = src.sepInfoIdx ∧
    reply.codecInfo = buildSrcCfg build src.codecCaps cap.torn ∧ after.codecCfg = reply.codecInfo

theorem PeerInv.sinkGetConfig (h : PeerInv build peer reported) (cap : Capability) :
    PeerInv build (peer.sinkGetConfig build cap).1 (cap.sep :: reported) ∧
      ((peer.sinkGetConfig build cap).2.success = true →
        SelectedFor build cap (peer.sinkGetConfig build cap).1 (peer.sinkGetConfig build cap).2 (cap.sep :: reported)) := by
  have hshort : peer.srcs.length < 256 := h.inTables.srcs ▸ sepCount_lt build
  unfold Peer.sinkGetConfig
  generalize (isPeerSourceCodecSupported build cap.codecInfo).isOk = supported
  have hlength := @storeSep_length supported peer.srcs peer.numSupSrcs cap.sep
  obtain ⟨hgrows, hroom⟩ := @storeSep_count supported peer.srcs peer.numSupSrcs cap.sep
    (h.inTables.srcs ▸ h.inTables.numSupSrcs) hshort
  have hreported := @storeSep_reported supported peer.srcs peer.numSupSrcs cap.sep reported hshort h.srcs
  generalize storeSep supported peer.srcs peer.numSupSrcs cap.sep = stored at *
  rw [h.inTables.srcs] at hlength hroom
  have hstored : PeerInv build { peer with numRxSrcs := peer.numRxSrcs + 1, srcs := stored.1, numSupSrcs := stored.2 }
      (cap.sep :: reported) :=
    { inTables :=
        { h.inTables with
          srcs := hlength
          numSupSrcs := hroom
          pSrc := fun index hindex => Nat.lt_of_lt_of_le (h.inTables.pSrc index hindex) hgrows }
      srcs := hreported
      snks := fun index sep hindex hsep => List.mem_cons_of_mem _ (h.snks index sep hindex hsep) }
  dsimp only
  split
  · split
    · rename_i index hfound
      have hindex := findSep_lt hfound
      have hbound : index < stored.1.length := by omega
      refine ⟨⟨{ hstored.inTables with pSrc := ?_ }, hstored.srcs, hstored.snks⟩, fun _ => ?_⟩
      · rintro index' hindex'
        obtain rfl := Option.some.inj hindex'
        exact hindex
      · have hget : stored.1[index]? = some (stored.1.getD index .zero) := by
          rw [List.getD_eq_getElem?_getD, List.getElem?_eq_getElem hbound]
          rfl
        exact ⟨_, hget, hreported index _ hindex hget, rfl, rfl, rfl⟩
    · exact ⟨hstored, fun hsuccess => nomatch hsuccess⟩
  · exact ⟨hstored, fun hsuccess => nomatch hsuccess⟩

theorem PeerInv.srcGetConfig (h : PeerInv build peer reported) (cap : Capability) :
    PeerInv build (peer.srcGetConfig build cap).1 (cap.sep :: reported) := by
  have hshort : peer.snks.length < 256 := h.inTables.snks ▸ sepCount_lt build
  unfold Peer.srcGetConfig
  generalize isPeerSinkCodecValid build cap.codecInfo = supported
  have hlength := @storeSep_length supported peer.snks peer.numSupSnks cap.sep
  have hroom := (@storeSep_count supported peer.snks peer.numSupSnks cap.sep
    (h.inTables.snks ▸ h.inTables.numSupSnks) hshort).2
  have hreported := @storeSep_reported supported peer.snks peer.numSupSnks cap.sep reported hshort h.snks
  generalize storeSep supported peer.snks peer.numSupSnks cap.sep = stored at *
  rw [h.inTables.snks] at hlength hroom
  have hstored : PeerInv build { peer with numRxSnks := peer.numRxSnks + 1, snks := stored.1, numSupSnks := stored.2 }
      (cap.sep :: reported) :=
    { inTables := { h.inTables with snks := hlength, numSupSnks := hroom }
      srcs := fun index sep hindex hsep => List.mem_cons_of_mem _ (h.srcs index sep hindex hsep)
      snks := hreported }
  dsimp only
  split
  · split
    · rename_i index hfound
      have hindex := findSep_lt hfound
      have hselected : ∀ cfg, PeerInv build
          { peer with
            numRxSnks := peer.numRxSnks + 1
            snks := stored.1
            numSupSnks := stored.2
            pSnk := some index
            codecCfg := cfg } (cap.sep :: reported) := by
        refine fun cfg => ⟨{ hstored.inTables with pSnk := ?_ }, hstored.srcs, hstored.snks⟩
        intro index' hindex'
        obtain rfl := Option.some.inj hindex'
        exact Nat.lt_of_lt_of_le hindex hroom
      split
      · split
        · exact hselected _
        · exact hselected _
      · exact hstored
    · exact hstored
  · exact hstored

theorem PeerInv.getConfig (h : PeerInv build peer reported) (cap : Capability) :
    PeerInv build (peer.getConfig build cap).1 (cap.sep :: reported) := by
  unfold Peer.getConfig
  split
  · exact (h.sinkGetConfig cap).1
  · exact h.srcGetConfig cap

/-! ## The control block -/

/-- The invariant of each peer, with what it reported. -/
def Inv (build : Build) (peers : List Peer) (reported : Nat → List Sep) : Prop :=
  ∀ i peer, peers[i]? = some peer → PeerInv build peer (reported i)

section Change

variable {before after : Nat → List Sep} {hndl : Octet} {f : Peer → Peer}

theorem Inv.set (h : Inv build cb.peers before) (hothers : ∀ i, indexOf hndl ≠ i → after i = before i)
    (hpeer : PeerInv build peer (after (indexOf hndl))) : Inv build (cb.setPeer hndl peer).peers after := by
  intro i peer' hpeer'
  by_cases hi : indexOf hndl = i
  · subst hi
    have hset : (cb.peers.set (indexOf hndl) peer)[indexOf hndl]? = some peer' := hpeer'
    rw [List.getElem?_set] at hset
    simp only [if_true] at hset
    split at hset
    · obtain rfl := Option.some.inj hset
      exact hpeer
    · exact nomatch hset
  · have hset : (cb.peers.set (indexOf hndl) peer)[i]? = some peer' := hpeer'
    rw [List.getElem?_set_ne hi] at hset
    rw [hothers i hi]
    exact h i peer' hset

/-- A handle without a record changes nothing that counts. -/
theorem Inv.missing (h : Inv build cb.peers before) (hothers : ∀ i, indexOf hndl ≠ i → after i = before i)
    (hnone : cb.getPeer hndl = none) : Inv build cb.peers after := by
  intro i peer hpeer
  by_cases hi : indexOf hndl = i
  · subst hi
    exact nomatch hnone.symm.trans hpeer
  · rw [hothers i hi]
    exact h i peer hpeer

theorem Inv.updatePeer (h : Inv build cb.peers before) (hothers : ∀ i, indexOf hndl ≠ i → after i = before i)
    (hf : ∀ peer, cb.getPeer hndl = some peer → PeerInv build (f peer) (after (indexOf hndl))) :
    Inv build (cb.updatePeer hndl f).peers after := by
  unfold Cb.updatePeer
  split
  · rename_i peer hpeer
    exact h.set hothers (hf peer hpeer)
  · rename_i hnone
    exact h.missing hothers hnone

end Change

variable {o : Observed}

/-- The source tables of a peer are empty when its discovery results come. -/
theorem numSupSrcs_of_calm (hcalm : ¬KeepsSources o.cb event) (hstart : StartsDiscovery o.cb i event)
    (hpeer : o.cb.peers[i]? = some peer) : peer.numSupSrcs = 0 :=
  Decidable.of_not_not fun hne => hcalm ⟨i, peer, hstart, hpeer, hne⟩

theorem inv_observe (h : Inv build o.cb.peers o.reported) (hcalm : ¬KeepsSources o.cb event) :
    Inv build (observe build o event).cb.peers (observe build o event).reported := by
  cases event with
  | discRes results =>
      refine h.updatePeer (fun i hi => if_neg hi) ?_
      intro peer hpeer
      have hreported : reportedAfter o.cb o.reported (.discRes results) (indexOf results.hndl) = [] := if_pos rfl
      rw [show (observe build o (.discRes results)).reported (indexOf results.hndl) = [] from hreported]
      exact (h _ _ hpeer).discRes (numSupSrcs_of_calm hcalm rfl hpeer) results
  | cfgRes results =>
      refine h.updatePeer (fun i hi => if_neg fun hboth => hi hboth.1) ?_
      intro peer hpeer
      cases hgot : peer.gotDiscRes with
      | true =>
          have hreported : reportedAfter o.cb o.reported (.cfgRes results) (indexOf results.hndl) =
              o.reported (indexOf results.hndl) := by
            refine if_neg fun hboth => ?_
            rw [hpeer] at hboth
            simp [hgot] at hboth
          rw [show (observe build o (.cfgRes results)).reported (indexOf results.hndl) = _ from hreported]
          exact (h _ _ hpeer).cfgRes_later hgot results
      | false =>
          have hreported : reportedAfter o.cb o.reported (.cfgRes results) (indexOf results.hndl) = [] := by
            refine if_pos ⟨rfl, ?_⟩
            rw [hpeer]
            simp [hgot]
          rw [show (observe build o (.cfgRes results)).reported (indexOf results.hndl) = _ from hreported]
          exact (h _ _ hpeer).cfgRes_first (numSupSrcs_of_calm hcalm ⟨rfl, peer, hpeer, hgot⟩ hpeer) hgot results
  | getConfig cap =>
      have hothers : ∀ i, indexOf cap.hndl ≠ i → reportedAfter o.cb o.reported (.getConfig cap) i = o.reported i :=
        fun i hi => if_neg hi
      have hreported : reportedAfter o.cb o.reported (.getConfig cap) (indexOf cap.hndl) =
          cap.sep :: o.reported (indexOf cap.hndl) := if_pos rfl
      show Inv build (step build o.cb (.getConfig cap)).1.peers (reportedAfter o.cb o.reported (.getConfig cap))
      unfold step
      dsimp only
      split
      · rename_i peer hpeer
        refine h.set hothers ?_
        rw [hreported]
        exact (h _ _ hpeer).getConfig cap
      · rename_i hnone
        exact h.missing hothers hnone
  | setConfig set =>
      show Inv build (o.cb.setConfig build set).1.peers o.reported
      unfold Cb.setConfig
      split
      · exact h
      · rename_i peer hpeer
        split
        · exact h
        · split
          · exact h
          · refine Inv.set h (fun _ _ => rfl) ?_
            have hpeerInv := h _ _ hpeer
            exact ⟨{ hpeerInv.inTables with }, hpeerInv.srcs, hpeerInv.snks⟩
  | «open» hndl mtu =>
      refine h.updatePeer (fun _ _ => rfl) ?_
      intro peer hpeer
      have hpeerInv := h _ _ hpeer
      exact ⟨{ hpeerInv.inTables with }, hpeerInv.srcs, hpeerInv.snks⟩
  | close hndl =>
      have hothers : ∀ i, indexOf hndl ≠ i → reportedAfter o.cb o.reported (.close hndl) i = o.reported i :=
        fun i hi => if_neg hi
      show Inv build (o.cb.close build hndl).peers (reportedAfter o.cb o.reported (.close hndl))
      unfold Cb.close
      split
      · exact Inv.set h hothers (peerInv_zero build _)
      · rename_i hnone
        exact h.missing hothers hnone

/-! ## Runs -/

theorem inv_observed {history : List Event}
    (hcalm : ∀ event earlier, event :: earlier <:+ history → ¬KeepsSources (observed build earlier).cb event) :
    Inv build (observed build history).cb.peers (observed build history).reported := by
  induction history with
  | nil =>
      intro i peer hpeer
      have hzero : peer = .zero build := by
        have hmem := List.mem_of_getElem? hpeer
        simpa [observed, Cb.init] using hmem
      rw [hzero]
      exact peerInv_zero build _
  | cons event earlier ih =>
      refine inv_observe (ih fun event' earlier' hsuffix => ?_) (hcalm event earlier (List.suffix_refl _))
      exact hcalm event' earlier' (hsuffix.trans (List.suffix_cons event earlier))

theorem getPeer_updatePeer {f : Peer → Peer} {hndl : Octet} {before : Peer} (h : cb.getPeer hndl = some before) :
    (cb.updatePeer hndl f).peers[indexOf hndl]? = some (f before) := by
  have hlt : indexOf hndl < cb.peers.length := (List.getElem?_eq_some_iff.mp h).1
  have hset : (cb.updatePeer hndl f).peers = cb.peers.set (indexOf hndl) (f before) := by
    unfold Cb.updatePeer
    rw [h]
    rfl
  rw [hset]
  exact List.getElem?_set_self hlt

/-- Discovery results clear all that they find, except the number of supported sources. -/
theorem after_results {before : Peer} (hstart : StartsDiscovery o.cb i event) (hbefore : o.cb.peers[i]? = some before) :
    ∃ after, (observe build o event).cb.peers[i]? = some after ∧ after.numRxSnks = 0 ∧ after.numRxSrcs = 0 ∧
      after.numSupSnks = 0 ∧ after.numSupSrcs = before.numSupSrcs := by
  cases event with
  | discRes results =>
      have hi : indexOf results.hndl = i := hstart
      subst hi
      exact ⟨_, getPeer_updatePeer hbefore, rfl, rfl, rfl, rfl⟩
  | cfgRes results =>
      obtain ⟨hi, peer, hpeer, hgot⟩ := hstart
      subst hi
      obtain rfl : peer = before := Option.some.inj (hpeer.symm.trans hbefore)
      refine ⟨_, getPeer_updatePeer hbefore, ?_⟩
      dsimp only [Peer.cfgRes]
      rw [if_neg (by rw [hgot]; exact Bool.false_ne_true)]
      exact ⟨rfl, rfl, rfl, rfl⟩
  | getConfig cap => exact hstart.elim
  | setConfig set => exact hstart.elim
  | «open» hndl mtu => exact hstart.elim
  | close hndl => exact hstart.elim

/-- Discovery results do not make a record. -/
theorem before_results (hstart : StartsDiscovery o.cb i event) (hafter : (observe build o event).cb.peers[i]? = some peer) :
    ∃ before, o.cb.peers[i]? = some before := by
  refine Option.isSome_iff_exists.mp (Option.isSome_iff_ne_none.mpr fun hnone => ?_)
  cases event with
  | discRes results =>
      have hi : indexOf results.hndl = i := hstart
      subst hi
      have hsame : o.cb.updatePeer results.hndl (fun peer => peer.discRes results) = o.cb := by
        unfold Cb.updatePeer
        rw [show o.cb.getPeer results.hndl = none from hnone]
      have hget : (o.cb.updatePeer results.hndl fun peer => peer.discRes results).peers[indexOf results.hndl]? = some peer :=
        hafter
      rw [hsame, hnone] at hget
      exact nomatch hget
  | cfgRes results =>
      obtain ⟨hi, before, hbefore, -⟩ := hstart
      subst hi
      exact nomatch hnone.symm.trans hbefore
  | getConfig cap => exact hstart
  | setConfig set => exact hstart
  | «open» hndl mtu => exact hstart
  | close hndl => exact hstart

theorem safeStep_of_calm (h : Inv build o.cb.peers o.reported) (hcalm : ¬KeepsSources o.cb event) :
    SafeStep build o event where
  reset := by
    intro i peer hstart hpeer
    obtain ⟨before, hbefore⟩ := before_results hstart hpeer
    obtain ⟨after, hafter, hrxSnks, hrxSrcs, hsupSnks, hsupSrcs⟩ := after_results hstart hbefore
    obtain rfl : after = peer := Option.some.inj (hafter.symm.trans hpeer)
    exact ⟨hrxSnks, hrxSrcs, hsupSnks, hsupSrcs.trans (numSupSrcs_of_calm hcalm hstart hbefore)⟩
  selected := by
    rintro cap before rfl hbefore huuid reply hreply hsuccess
    have hlt : indexOf cap.hndl < o.cb.peers.length := (List.getElem?_eq_some_iff.mp hbefore).1
    have hgot : before.getConfig build cap =
        ((before.sinkGetConfig build cap).1, [.config (before.sinkGetConfig build cap).2]) := if_pos huuid
    have hstep : step build o.cb (.getConfig cap) =
        (o.cb.setPeer cap.hndl (before.sinkGetConfig build cap).1, [.config (before.sinkGetConfig build cap).2]) := by
      unfold step
      dsimp only
      rw [hbefore]
      dsimp only
      rw [hgot]
    rw [hstep] at hreply
    obtain rfl : reply = (before.sinkGetConfig build cap).2 := Output.config.inj (List.mem_singleton.mp hreply)
    obtain ⟨src, hsrc, hmem, hidx, hinfo, hcfg⟩ := ((h _ _ hbefore).sinkGetConfig cap).2 hsuccess
    refine ⟨_, src, ?_, hsrc, ?_, hidx, hinfo, hcfg⟩
    · show (step build o.cb (.getConfig cap)).1.peers[indexOf cap.hndl]? = _
      rw [hstep]
      exact List.getElem?_set_self hlt
    · show src ∈ reportedAfter o.cb o.reported (.getConfig cap) (indexOf cap.hndl)
      rw [show reportedAfter o.cb o.reported (.getConfig cap) (indexOf cap.hndl) = _ from if_pos rfl]
      exact hmem
  inTables := fun i peer hpeer => (inv_observe h hcalm i peer hpeer).inTables

/-- In every run all steps are safe exactly when no discovery results come for a peer with sources of earlier results. -/
theorem tables_safe_iff (build : Build) (history : List Event) :
    (∀ event earlier, event :: earlier <:+ history → SafeStep build (observed build earlier) event) ↔
      ∀ event earlier, event :: earlier <:+ history → ¬KeepsSources (observed build earlier).cb event := by
  constructor
  · rintro hsafe event earlier hsuffix ⟨i, before, hstart, hbefore, hsources⟩
    obtain ⟨after, hafter, -, -, -, hkept⟩ := after_results hstart hbefore
    exact hsources (hkept.symm.trans ((hsafe event earlier hsuffix).reset i after hstart hafter).2.2.2)
  · intro hcalm event earlier hsuffix
    refine safeStep_of_calm (inv_observed fun event' earlier' hsuffix' => ?_) (hcalm event earlier hsuffix)
    exact hcalm event' earlier' (hsuffix'.trans ((List.suffix_cons event earlier).trans hsuffix))

/-! ## A source of an earlier connection -/

/-- Only SBC. -/
def sbcBuild : Build where
  aptx := false
  ldac := false
  opus := false
  lc3plus := false
  lhdcv5 := false
  aac := false

/-- A peer with one source end point. -/
def oneSource : Results where
  hndl := 0x41
  numSeps := 1
  numSnk := 0
  numSrc := 1
  addr := [1, 2, 3, 4, 5, 6]
  uuidLocal := uuidAudioSink

/-- The capability of the first end point of a peer. -/
def capability (seid : Octet) (codecInfo : List Octet) : Capability where
  hndl := 0x41
  codecInfo := codecInfo
  sepInfoIdx := 0
  seid := seid
  numProtect := 0
  protectInfo := [0, 0, 0]
  torn := []

/-- The first connection offers SBC and is lost before it is open; the second one offers a codec that is not built in. -/
def lostThenOther : List Event :=
  [.discRes oneSource, .getConfig (capability 1 [6, 0, 0, 0xFF, 0xFF, 2, 53]), .discRes oneSource]

/-- The source of the lost connection is selected for the second one. -/
theorem stale_source_selected : ¬SafeStep sbcBuild (observed sbcBuild lostThenOther) (.getConfig (capability 2 [8, 0, 2])) := by
  intro hsafe
  have hbefore : ∃ before, (observed sbcBuild lostThenOther).cb.getPeer 0x41 = some before ∧
      before.uuidToConnect = uuidAudioSource := ⟨_, rfl, rfl⟩
  obtain ⟨before, hbefore, huuid⟩ := hbefore
  obtain ⟨after, src, hafter, hsrc, hmem, -⟩ := hsafe.selected _ before rfl hbefore huuid _ (List.mem_singleton.mpr rfl) rfl
  obtain rfl := Option.some.inj hafter
  obtain rfl := Option.some.inj hsrc
  revert hmem
  decide

end EspIdf.A2dp.AvCo
