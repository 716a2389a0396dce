import Mathlib.Data.Prod.Lex
import UltraTorrent.Scheduler.Assignments

/-! Whether a plan depends on the order in which the torrents are listed. The ranking does not;
the caps do, since they are read from the torrent that is listed first. What a cap decides is
whether a slot is free, each time the walk asks. -/
namespace UltraTorrent.Scheduler.OrderIndependence

open Library Library.EcmaScript
open Occupancy Policy Planner Priority WalkSteps Assignments

variable (rt : Runtime) (dateNow : String → Instant) (opts : PlannerOptions) (engineId : String)
  (torrents : List PlannerTorrent) (caps : TorrentQueueCapabilities)

structure Assigned where
  desiredState : DesiredState
  action : Action
  reasonCode : ReasonCode
  deriving DecidableEq

def assigned (d : TorrentDecision) : Assigned := ⟨d.desiredState, d.action, d.reasonCode⟩

def Assigns (decisions : List TorrentDecision) (hash : String) (a : Assigned) : Prop :=
  ∃ d ∈ decisions, d.hash = hash ∧ assigned d = a

def SameAssignments (ds es : List TorrentDecision) : Prop :=
  ∀ hash a, Assigns ds hash a ↔ Assigns es hash a

/-- However the torrents are listed, every hash is assigned the same. -/
def OrderIndependent : Prop :=
  ∀ listed : List PlannerTorrent, listed.Perm torrents →
    SameAssignments (planEngine rt dateNow opts engineId listed caps).decisions
      (planEngine rt dateNow opts engineId torrents caps).decisions

/-- The caps a torrent would supply if it were listed first. -/
def capsOf (t : PlannerTorrent) : Limits where
  engineId := engineId
  maxDownloads := t.policy.maxConcurrentDownloads
  maxSeeds := t.policy.maxConcurrentSeeds
  maxTotal := t.policy.maxTotalActive

def decisionsUnder (limits : Limits) : List TorrentDecision :=
  (untouchable torrents).map settleUntouchable ++
    Walk.outputs (visit rt dateNow opts limits) (initialSlots engineId torrents caps)
      (ranked rt torrents)

/-- The walk asks here whether a slot is free. -/
def asks (limits : Limits) (place : Slots × PlannerTorrent) : Bool :=
  (consultSeedTarget rt dateNow opts limits place.1 place.2).isNone && !place.2.forceStarted &&
    (place.2.occupancy.holdsTotalActiveSlot || place.2.occupancy.isResumable &&
      !(!place.2.complete && place.2.allowNewDownloads = some false))

/-- Wherever a walk asks, the caps of both answer alike. -/
def SameAnswers (limits limits' : Limits) (s : Slots) (ts : List PlannerTorrent) : Prop :=
  ∀ place ∈ Walk.visits (visit rt dateNow opts limits) s ts,
    asks rt dateNow opts limits place = true →
      slotFree limits place.1 place.2.complete = slotFree limits' place.1 place.2.complete

/-- Whichever torrent supplies the caps, the walk is given the same answers. -/
def AnswersAgree : Prop :=
  ∀ t ∈ torrents, ∀ u ∈ torrents, SameAnswers rt dateNow opts (capsOf engineId t)
    (capsOf engineId u) (initialSlots engineId torrents caps) (ranked rt torrents)

/-- A cap, as far as it can matter to a count that goes from `low` to below `high`. -/
def cut (low high : ℕ) (cap : Option ℤ) : ℤ := max low (min high (cap.getD high))

/-- Slots that are held whatever the plan does. -/
def held : ℕ := (untouchable torrents).countP (·.occupancy.holdsTotalActiveSlot)

/-- No two torrents name caps that differ as far as there are contenders for the slots: unfinished
ones for downloads, finished ones for seeds, and all of them. -/
structure CapsAgree : Prop where
  downloads : ∀ t ∈ torrents, ∀ u ∈ torrents,
    cut 0 ((contenders torrents).countP (!·.complete)) t.policy.maxConcurrentDownloads =
      cut 0 ((contenders torrents).countP (!·.complete)) u.policy.maxConcurrentDownloads
  seeds : ∀ t ∈ torrents, ∀ u ∈ torrents,
    cut 0 ((contenders torrents).countP (·.complete)) t.policy.maxConcurrentSeeds =
      cut 0 ((contenders torrents).countP (·.complete)) u.policy.maxConcurrentSeeds
  total : ∀ t ∈ torrents, ∀ u ∈ torrents,
    cut (held torrents) (held torrents + (contenders torrents).length) t.policy.maxTotalActive =
      cut (held torrents) (held torrents + (contenders torrents).length) u.policy.maxTotalActive

/-- `localeCompare` is a total preorder, and none of these hashes is another spelling of
another one. -/
structure OrdersHashes (hashes : List String) : Prop where
  total : ∀ a b, rt.localeCompare a b ≤ 0 ∨ rt.localeCompare b a ≤ 0
  trans : ∀ a b c, rt.localeCompare a b ≤ 0 → rt.localeCompare b c ≤ 0 → rt.localeCompare a c ≤ 0
  antisymm : ∀ a ∈ hashes, ∀ b ∈ hashes,
    rt.localeCompare a b ≤ 0 → rt.localeCompare b a ≤ 0 → a = b

/-- Torrents of one engine: no two under one hash, each with its own score. -/
structure Listing : Prop where
  nodup : (torrents.map (·.hash)).Nodup
  scored : ∀ t ∈ torrents, t.decision.torrentHash = t.hash

variable {rt dateNow opts engineId torrents caps} {limits limits' : Limits} {s : Slots}
  {t : PlannerTorrent} {ts : List PlannerTorrent}

/-! ### The ranking -/

/-- What the ranking compares before it compares hashes: a higher score, then a torrent that
runs, then one that was added earlier. -/
def rankKey (o : OrderableTorrent) : ℤ ×ₗ ℤ ×ₗ ℤ :=
  toLex (-o.decision.score,
    toLex (if o.currentlyActive then 0 else 1, o.addedAt.getD maxSafeInteger))

theorem comparePriority_le_iff {a b : OrderableTorrent} : comparePriority rt a b ≤ 0 ↔
    rankKey a < rankKey b ∨ rankKey a = rankKey b ∧
      rt.localeCompare a.decision.torrentHash b.decision.torrentHash ≤ 0 := by
  unfold comparePriority
  simp only [rankKey, Prod.Lex.toLex_lt_toLex, EmbeddingLike.apply_eq_iff_eq, Prod.mk.injEq,
    neg_lt_neg_iff, neg_inj]
  by_cases hscore : b.decision.score = a.decision.score
  · by_cases hactive : a.currentlyActive = b.currentlyActive
    · by_cases hadded : a.addedAt.getD maxSafeInteger = b.addedAt.getD maxSafeInteger
      · simp [hscore, hactive, hadded]
      · have hle := Ne.le_iff_lt hadded
        simp [hscore, hactive, hadded, hle]
    · cases ha : a.currentlyActive <;> cases hb : b.currentlyActive <;> simp_all
  · have hle := Ne.le_iff_lt hscore
    simp [hscore, Ne.symm hscore, hle]

def RanksBefore (rt : Runtime) (a b : PlannerTorrent) : Prop :=
  comparePriority rt (orderable a) (orderable b) ≤ 0

instance (a b : PlannerTorrent) : Decidable (RanksBefore rt a b) :=
  inferInstanceAs (Decidable (comparePriority rt (orderable a) (orderable b) ≤ 0))

section Ranking

variable (horders : OrdersHashes rt (torrents.map (·.hash)))
include horders

theorem ranksBefore_total (a b : PlannerTorrent) : RanksBefore rt a b ∨ RanksBefore rt b a := by
  rw [RanksBefore, RanksBefore, comparePriority_le_iff, comparePriority_le_iff]
  rcases lt_trichotomy (rankKey (orderable a)) (rankKey (orderable b)) with hlt | heq | hlt
  · exact .inl (.inl hlt)
  · exact (horders.total _ _).imp (fun h => .inr ⟨heq, h⟩) fun h => .inr ⟨heq.symm, h⟩
  · exact .inr (.inl hlt)

theorem ranksBefore_trans {a b c : PlannerTorrent} (hab : RanksBefore rt a b)
    (hbc : RanksBefore rt b c) : RanksBefore rt a c := by
  rw [RanksBefore, comparePriority_le_iff] at *
  rcases hab with hab | ⟨hab, hle⟩
  · rcases hbc with hbc | ⟨hbc, -⟩
    · exact .inl (hab.trans hbc)
    · exact .inl (hbc ▸ hab)
  · rcases hbc with hbc | ⟨hbc, hle'⟩
    · exact .inl (hab ▸ hbc)
    · exact .inr ⟨hab.trans hbc, horders.trans _ _ _ hle hle'⟩

theorem ranksBefore_antisymm (hlisting : Listing torrents) {a b : PlannerTorrent}
    (ha : a ∈ torrents) (hb : b ∈ torrents) (hab : RanksBefore rt a b)
    (hba : RanksBefore rt b a) : a = b := by
  rw [RanksBefore, comparePriority_le_iff] at hab hba
  refine List.inj_on_of_nodup_map hlisting.nodup ha hb ?_
  rcases hab with hab | ⟨hkey, hab⟩
  · rcases hba with hba | ⟨hkey, -⟩
    · exact absurd hba (lt_asymm hab)
    · exact absurd hkey hab.ne'
  · rcases hba with hba | ⟨-, hba⟩
    · exact absurd hkey hba.ne'
    · have hashes : ∀ t ∈ torrents, (orderable t).decision.torrentHash = t.hash := hlisting.scored
      rw [hashes a ha, hashes b hb] at hab hba
      exact horders.antisymm _ (List.mem_map_of_mem ha) _ (List.mem_map_of_mem hb) hab hba

/-- The ranking of a listing is the same in whatever order it is listed. -/
theorem ranked_eq_of_perm (hlisting : Listing torrents) {listed : List PlannerTorrent}
    (hperm : listed.Perm torrents) : ranked rt listed = ranked rt torrents := by
  have htotal : Std.Total (RanksBefore rt) := ⟨ranksBefore_total horders⟩
  have htrans : IsTrans PlannerTorrent (RanksBefore rt) :=
    ⟨fun _ _ _ => ranksBefore_trans horders⟩
  have hcontenders : (contenders listed).Perm (contenders torrents) := hperm.filter _
  refine List.Perm.eq_of_pairwise ?_ (List.pairwise_insertionSort (RanksBefore rt) _)
    (List.pairwise_insertionSort (RanksBefore rt) _) ?_
  · intro a b ha hb hab hba
    exact ranksBefore_antisymm horders hlisting (hperm.subset (mem_ranked.1 ha).1)
      (mem_ranked.1 hb).1 hab hba
  · exact ((orderByPriority_perm rt orderable _).trans hcontenders).trans
      (orderByPriority_perm rt orderable _).symm

theorem decisionsUnder_perm (hlisting : Listing torrents) {listed : List PlannerTorrent}
    (hperm : listed.Perm torrents) (limits : Limits) :
    (decisionsUnder rt dateNow opts engineId listed caps limits).Perm
      (decisionsUnder rt dateNow opts engineId torrents caps limits) := by
  have hstart : initialSlots engineId listed caps = initialSlots engineId torrents caps := by
    simp only [initialSlots, untouchable, (hperm.filter _).countP_eq]
  rw [decisionsUnder, decisionsUnder, ranked_eq_of_perm horders hlisting hperm, hstart]
  exact ((hperm.filter _).map settleUntouchable).append_right _

end Ranking

/-! ### What is assigned -/

theorem sameAssignments_of_perm {ds es : List TorrentDecision} (h : ds.Perm es) :
    SameAssignments ds es := by
  intro hash a
  exact ⟨fun ⟨d, hd, hda⟩ => ⟨d, h.subset hd, hda⟩, fun ⟨d, hd, hda⟩ => ⟨d, h.symm.subset hd, hda⟩⟩

theorem SameAssignments.symm {ds es : List TorrentDecision} (h : SameAssignments ds es) :
    SameAssignments es ds := fun hash a => (h hash a).symm

theorem SameAssignments.trans {ds es fs : List TorrentDecision} (h : SameAssignments ds es)
    (h' : SameAssignments es fs) : SameAssignments ds fs :=
  fun hash a => (h hash a).trans (h' hash a)

theorem assigns_iff {ds : List TorrentDecision} {hash : String} {a : Assigned} :
    Assigns ds hash a ↔ (hash, a) ∈ (ds.map (·.hash)).zip (ds.map assigned) := by
  rw [List.zip_map', List.mem_map]
  simp only [Assigns, Prod.mk.injEq]

theorem sameAssignments_iff {ds es : List TorrentDecision}
    (hhash : ds.map (·.hash) = es.map (·.hash)) (hnodup : (es.map (·.hash)).Nodup) :
    SameAssignments ds es ↔ ds.map assigned = es.map assigned := by
  constructor
  · intro h
    have hlength : ds.length = es.length := by simpa using congrArg List.length hhash
    refine List.ext_getElem (by simp [hlength]) fun i hi hi' => ?_
    rw [List.length_map] at hi hi'
    have hsame : ds[i].hash = es[i].hash := by
      have := List.getElem_of_eq hhash (by simpa using hi)
      simpa using this
    obtain ⟨e, he, hehash, hassigned⟩ := (h ds[i].hash (assigned ds[i])).1 ⟨_, List.getElem_mem hi, rfl, rfl⟩
    have hunique : e = es[i] :=
      List.inj_on_of_nodup_map hnodup he (List.getElem_mem hi') (hehash.trans hsame)
    rw [List.getElem_map, List.getElem_map, ← hassigned, hunique]
  · intro h hash a
    rw [assigns_iff, assigns_iff, hhash, h]

/-! ### The answers -/

theorem consultSeedTarget_congr (hid : limits.engineId = limits'.engineId) :
    consultSeedTarget rt dateNow opts limits s t = consultSeedTarget rt dateNow opts limits' s t := by
  unfold consultSeedTarget
  rw [hid]

/-- What a reason says about the slot, where the walk has asked. -/
def saysFree (t : PlannerTorrent) (code : ReasonCode) : Bool :=
  if t.occupancy.holdsTotalActiveSlot then
    code = .seedingWithinLimit || code = .downloadingWithinLimit
  else code ≠ .waitingForSeedSlot && code ≠ .waitingForDownloadSlot

/-- The answer can be read off the decision. -/
theorem saysFree_visit (hasks : asks rt dateNow opts limits (s, t) = true) :
    saysFree t (visit rt dateNow opts limits s t).2.reasonCode = slotFree limits s t.complete := by
  simp only [asks, Bool.and_eq_true, Option.isNone_iff_eq_none, Bool.not_eq_true'] at hasks
  obtain ⟨⟨hseed, hforced⟩, hopen⟩ := hasks
  cases hactive : t.occupancy.holdsTotalActiveSlot with
  | true =>
    rw [visit_active hseed hforced hactive]
    simp only [saysFree, hactive, if_true, visitActive]
    split_ifs <;> simp_all
  | false =>
    rw [visit_waiting hforced hactive]
    rw [hactive, Bool.false_or, Bool.and_eq_true, Bool.not_eq_true'] at hopen
    simp only [saysFree, hactive, Bool.false_eq_true, if_false, visitWaiting, hopen.1, hopen.2]
    split_ifs <;> simp_all

theorem visit_congr (hid : limits.engineId = limits'.engineId)
    (h : asks rt dateNow opts limits (s, t) = true →
      slotFree limits s t.complete = slotFree limits' s t.complete) :
    (visit rt dateNow opts limits s t).1 = (visit rt dateNow opts limits' s t).1 ∧
      assigned (visit rt dateNow opts limits s t).2 = assigned (visit rt dateNow opts limits' s t).2 := by
  have hconsult := @consultSeedTarget_congr rt dateNow opts _ _ s t hid
  cases hseed : consultSeedTarget rt dateNow opts limits s t with
  | some settled =>
    rw [visit_settled hseed, visit_settled (hconsult ▸ hseed)]
    exact ⟨rfl, rfl⟩
  | none =>
    have hseed' := hconsult ▸ hseed
    cases hforced : t.forceStarted with
    | true =>
      rw [visit_forced hseed hforced, visit_forced hseed' hforced]
      exact ⟨rfl, rfl⟩
    | false =>
      simp only [asks, hseed, hforced, Option.isNone_none, Bool.not_false, Bool.true_and] at h
      cases hactive : t.occupancy.holdsTotalActiveSlot with
      | true =>
        rw [hactive, Bool.true_or] at h
        rw [visit_active hseed hforced hactive, visit_active hseed' hforced hactive]
        unfold visitActive
        rw [h rfl]
        split_ifs <;> exact ⟨rfl, rfl⟩
      | false =>
        rw [hactive, Bool.false_or, Bool.and_eq_true, Bool.not_eq_true'] at h
        rw [visit_waiting hforced hactive, visit_waiting hforced hactive]
        unfold visitWaiting
        by_cases hopen : t.occupancy.isResumable = true ∧
            (!t.complete && t.allowNewDownloads = some false) = false
        · rw [h hopen]
          split_ifs <;> exact ⟨rfl, rfl⟩
        · split_ifs <;> simp_all

theorem outputs_assigned_iff (hid : limits.engineId = limits'.engineId) :
    (Walk.outputs (visit rt dateNow opts limits) s ts).map assigned =
        (Walk.outputs (visit rt dateNow opts limits') s ts).map assigned ↔
      SameAnswers rt dateNow opts limits limits' s ts := by
  induction ts generalizing s with
  | nil => simp [SameAnswers, Walk.outputs, Walk.visits]
  | cons t ts ih =>
    simp only [SameAnswers, Walk.outputs, Walk.visits, List.map_cons, List.cons.injEq,
      List.forall_mem_cons]
    constructor
    · rintro ⟨hhead, htail⟩
      have hanswer : asks rt dateNow opts limits (s, t) = true →
          slotFree limits s t.complete = slotFree limits' s t.complete := by
        intro hasks
        have hasks' : asks rt dateNow opts limits' (s, t) = true := by
          rwa [asks, ← consultSeedTarget_congr hid]
        rw [← saysFree_visit hasks, ← saysFree_visit hasks']
        exact congrArg (saysFree t ·.reasonCode) hhead
      rw [← (visit_congr hid hanswer).1] at htail
      exact ⟨hanswer, ih.1 htail⟩
    · rintro ⟨hhead, htail⟩
      obtain ⟨hslots, hassigned⟩ := visit_congr hid hhead
      rw [← hslots]
      exact ⟨hassigned, ih.2 htail⟩

theorem decisionsUnder_hash : (decisionsUnder rt dateNow opts engineId torrents caps limits).map (·.hash) =
    (untouchable torrents ++ ranked rt torrents).map (·.hash) := by
  have hsettled : (fun t => (settleUntouchable t).hash) = fun t : PlannerTorrent => t.hash :=
    funext fun _ => decide_hash ..
  rw [decisionsUnder, List.map_append, List.map_append, List.map_map, Walk.outputs_eq_map, List.map_map]
  congr 1
  conv_rhs => rw [← Walk.visits_map_snd (visit rt dateNow opts limits)
    (initialSlots engineId torrents caps) (ranked rt torrents), List.map_map]
  exact List.map_congr_left fun place _ => visit_hash

theorem sameAssignments_under_iff (hlisting : Listing torrents) (t u : PlannerTorrent) :
    SameAssignments (decisionsUnder rt dateNow opts engineId torrents caps (capsOf engineId t))
        (decisionsUnder rt dateNow opts engineId torrents caps (capsOf engineId u)) ↔
      SameAnswers rt dateNow opts (capsOf engineId t) (capsOf engineId u)
        (initialSlots engineId torrents caps) (ranked rt torrents) := by
  have hperm : (untouchable torrents ++ ranked rt torrents).Perm torrents :=
    ((orderByPriority_perm rt orderable _).append_left _).trans (List.filter_append_perm _ _)
  have hid : (capsOf engineId t).engineId = (capsOf engineId u).engineId := rfl
  rw [sameAssignments_iff (decisionsUnder_hash.trans decisionsUnder_hash.symm)
      (decisionsUnder_hash ▸ (hperm.map _).nodup_iff.2 hlisting.nodup),
    ← outputs_assigned_iff hid]
  simp only [decisionsUnder, List.map_append, List.append_cancel_left_eq]

/-! ### The caps -/

theorem withinLimit_of_cut {low high n : ℕ} {cap cap' : Option ℤ} (h : cut low high cap = cut low high cap')
    (hlow : low ≤ n) (hhigh : n < high) : withinLimit n cap = withinLimit n cap' := by
  have hcut (cap : Option ℤ) : withinLimit n cap = decide ((n : ℤ) < cut low high cap) := by
    cases cap <;> simp only [withinLimit, cut, Option.getD] <;> grind
  rw [hcut, hcut, h]

theorem visit_room : let s' := (visit rt dateNow opts limits s t).1
    s'.downloads ≤ s.downloads + (if t.complete then 0 else 1) ∧
      s'.seeds ≤ s.seeds + (if t.complete then 1 else 0) ∧
      s.total ≤ s'.total ∧ s'.total ≤ s.total + 1 := by
  cases hseed : consultSeedTarget rt dateNow opts limits s t with
  | some settled =>
    rw [visit_settled hseed, settleSeed, (consultSeedTarget_some hseed).1]
    split_ifs <;> simp_all [Slots.act, Slots.note, Slots.occupy]
  | none =>
    rcases visit_of_silent hseed with hvisit | hvisit | hvisit <;> rw [hvisit]
    · unfold visitForced
      split_ifs <;> simp_all [Slots.act, Slots.occupy]
    · rw [visitActive_slots]
      split_ifs <;> simp_all [Slots.act, Slots.occupy]
    · rw [visitWaiting_slots]
      split_ifs <;> simp_all [Slots.act, Slots.occupy]

theorem sameAnswers_of_room {downloads seeds low high : ℕ}
    (hd : ∀ n < downloads, withinLimit n limits.maxDownloads = withinLimit n limits'.maxDownloads)
    (hs : ∀ n < seeds, withinLimit n limits.maxSeeds = withinLimit n limits'.maxSeeds)
    (ht : ∀ n, low ≤ n → n < high → withinLimit n limits.maxTotal = withinLimit n limits'.maxTotal)
    (hdownloads : s.downloads + ts.countP (!·.complete) ≤ downloads)
    (hseeds : s.seeds + ts.countP (·.complete) ≤ seeds) (hlow : low ≤ s.total)
    (hhigh : s.total + ts.length ≤ high) : SameAnswers rt dateNow opts limits limits' s ts := by
  induction ts generalizing s with
  | nil => simp [SameAnswers, Walk.visits]
  | cons t ts ih =>
    rw [List.countP_cons] at hdownloads hseeds
    rw [List.length_cons] at hhigh
    obtain ⟨hd', hs', hl', hh'⟩ := @visit_room rt dateNow opts limits s t
    simp only [SameAnswers, Walk.visits, List.forall_mem_cons]
    refine ⟨fun _ => ?_, ih ?_ ?_ (hlow.trans hl') (by omega)⟩
    · have htotal := ht s.total hlow (by omega)
      cases hcomplete : t.complete
      · simp only [hcomplete] at hdownloads
        simp only [slotFree, Bool.false_eq_true, if_false, htotal, hd s.downloads (by simp at hdownloads; omega)]
      · simp only [hcomplete] at hseeds
        simp only [slotFree, if_true, htotal, hs s.seeds (by simp at hseeds; omega)]
    · cases hcomplete : t.complete <;> simp [hcomplete] at hdownloads hd' <;> omega
    · cases hcomplete : t.complete <;> simp [hcomplete] at hseeds hs' <;> omega

theorem answersAgree_of_capsAgree (h : CapsAgree torrents) :
    AnswersAgree rt dateNow opts engineId torrents caps := by
  intro t ht u hu
  have hperm := orderByPriority_perm rt orderable (contenders torrents)
  have hnone (p : OccupancyClass → Bool) (hp : ∀ o : OccupancyClass, o.isUntouchable = true → p o = false) :
      (untouchable torrents).countP (fun t => p t.occupancy) = 0 :=
    List.countP_eq_zero.2 fun t ht => by simp [hp _ (List.mem_filter.1 ht).2]
  refine sameAnswers_of_room (fun n hn => withinLimit_of_cut (h.downloads t ht u hu) n.zero_le hn)
    (fun n hn => withinLimit_of_cut (h.seeds t ht u hu) n.zero_le hn)
    (fun n hlow hhigh => withinLimit_of_cut (h.total t ht u hu) hlow hhigh) ?_ ?_ le_rfl ?_
  · rw [initialSlots, hnone _ fun _ => OccupancyClass.not_holdsDownloadSlot, Nat.zero_add]
    exact (hperm.countP_eq _).le
  · rw [initialSlots, hnone _ fun _ => OccupancyClass.not_holdsSeedSlot, Nat.zero_add]
    exact (hperm.countP_eq _).le
  · exact (congrArg (held torrents + ·) hperm.length_eq).le

theorem decisions_cons (hpause : canDo caps.pause = true) (t : PlannerTorrent)
    (rest : List PlannerTorrent) :
    (planEngine rt dateNow opts engineId (t :: rest) caps).decisions =
      decisionsUnder rt dateNow opts engineId (t :: rest) caps (capsOf engineId t) := by
  simp only [planEngine, hpause, Bool.not_true, Bool.false_eq_true, if_false]
  rfl

/-- A plan does not depend on the order of its torrents exactly when its engine cannot pause, or the
caps of any two torrents give the walk the same answers. -/
theorem orderIndependent_of_answers (hlisting : Listing torrents)
    (horders : OrdersHashes rt (torrents.map (·.hash))) :
    OrderIndependent rt dateNow opts engineId torrents caps ↔
      (canDo caps.pause = true → AnswersAgree rt dateNow opts engineId torrents caps) := by
  cases hpause : canDo caps.pause with
  | false =>
    refine ⟨fun _ h => ?_, fun _ listed hperm => sameAssignments_of_perm ?_⟩
    · cases h
    · simp only [planEngine, hpause, Bool.not_false, if_true]
      exact hperm.map _
  | true =>
    -- listed first, a torrent supplies the caps
    have hfirst (t : PlannerTorrent) (rest : List PlannerTorrent)
        (hperm : (t :: rest).Perm torrents) :
        SameAssignments (planEngine rt dateNow opts engineId (t :: rest) caps).decisions
          (decisionsUnder rt dateNow opts engineId torrents caps (capsOf engineId t)) := by
      rw [decisions_cons hpause]
      exact sameAssignments_of_perm (decisionsUnder_perm horders hlisting hperm _)
    constructor
    · intro h _ t ht u hu
      obtain ⟨pre, post, rfl⟩ := List.append_of_mem ht
      have ht := hfirst t _ List.perm_middle.symm
      obtain ⟨pre', post', hsplit⟩ := List.append_of_mem hu
      have hperm : (u :: (pre' ++ post')).Perm (pre ++ t :: post) := hsplit ▸ List.perm_middle.symm
      have hu := hfirst u _ hperm
      rw [← sameAssignments_under_iff hlisting]
      exact (ht.symm.trans (h _ List.perm_middle.symm)).trans ((h _ hperm).symm.trans hu)
    · intro h listed hperm
      cases listed with
      | nil => rw [List.nil_perm.1 hperm]; exact fun _ _ => Iff.rfl
      | cons t rest =>
        cases htorrents : torrents with
        | nil => rw [htorrents] at hperm; cases List.perm_nil.1 hperm
        | cons u rest' =>
          rw [← htorrents]
          have hself : (u :: rest').Perm torrents := htorrents ▸ List.Perm.refl _
          have ht := hfirst t rest hperm
          have hu := hfirst u rest' hself
          rw [← htorrents] at hu
          have hsame := (sameAssignments_under_iff hlisting t u).2
            (h rfl t (hperm.subset List.mem_cons_self) u (hself.subset List.mem_cons_self))
          exact (ht.trans hsame).trans hu.symm

/-- A plan does not depend on the order of its torrents where their policies name the same caps, as
far as there are contenders for the slots; and otherwise exactly when the engine cannot pause, or
wherever the walk asks for a slot the caps of all torrents give the same answer. -/
theorem orderIndependent_iff (hlisting : Listing torrents)
    (horders : OrdersHashes rt (torrents.map (·.hash))) :
    (CapsAgree torrents → OrderIndependent rt dateNow opts engineId torrents caps) ∧
      (OrderIndependent rt dateNow opts engineId torrents caps ↔
        (canDo caps.pause = true → AnswersAgree rt dateNow opts engineId torrents caps)) :=
  ⟨fun h => (orderIndependent_of_answers hlisting horders).2 fun _ => answersAgree_of_capsAgree h,
    orderIndependent_of_answers hlisting horders⟩

/-! ### Two torrents with policies of their own -/

theorem ascii_orders (hashes : List String) : OrdersHashes .ascii hashes where
  total a b := (String.le_total a b).imp Runtime.ascii_localeCompare.2 Runtime.ascii_localeCompare.2
  trans _ _ _ hab hbc := Runtime.ascii_localeCompare.2
    (String.le_trans (Runtime.ascii_localeCompare.1 hab) (Runtime.ascii_localeCompare.1 hbc))
  antisymm _ _ _ _ hab hba :=
    String.le_antisymm (Runtime.ascii_localeCompare.1 hab) (Runtime.ascii_localeCompare.1 hba)

def queued (hash : String) (policy : EffectivePolicy) : PlannerTorrent where
  hash := hash
  engineId := "e"
  occupancy := .downloadQueued
  decision := ⟨hash, 0, .normal, []⟩
  policy := policy
  complete := false

/-- A policy of the torrent `b` allows no downloads. -/
def ownPolicies : List PlannerTorrent :=
  [queued "a" {}, queued "b" { maxConcurrentDownloads := some 0 }]

/-- The torrent `b` has a cap of its own, for which there are too few downloads. -/
def roomyPolicies : List PlannerTorrent :=
  [queued "a" {}, queued "b" { maxConcurrentDownloads := some 2 }]

theorem listing_roomyPolicies : Listing roomyPolicies where
  nodup := by decide +kernel
  scored := by simp [roomyPolicies, queued]

theorem orderIndependent_roomyPolicies :
    OrderIndependent .ascii (fun _ => 0) { now := 0 } "e" roomyPolicies nativeCapabilities ∧
      (OrderIndependent .ascii (fun _ => 0) { now := 0 } "e" roomyPolicies nativeCapabilities ↔
        (canDo nativeCapabilities.pause = true →
          AnswersAgree .ascii (fun _ => 0) { now := 0 } "e" roomyPolicies nativeCapabilities)) := by
  have hcaps : CapsAgree roomyPolicies :=
    ⟨by decide +kernel, by decide +kernel, by decide +kernel⟩
  exact (orderIndependent_iff listing_roomyPolicies (ascii_orders _)).imp (· hcaps) id

/-- Listed first, the torrent `b` keeps both from starting. -/
theorem order_decides :
    ¬ OrderIndependent .ascii (fun _ => 0) { now := 0 } "e" ownPolicies nativeCapabilities := by
  intro h
  have hsame := h ownPolicies.reverse (List.reverse_perm _) "a"
    ⟨.paused, .none, .waitingForDownloadSlot⟩
  have hwaits : Assigns (planEngine .ascii (fun _ => 0) { now := 0 } "e" ownPolicies.reverse
      nativeCapabilities).decisions "a" ⟨.paused, .none, .waitingForDownloadSlot⟩ := by
    unfold Assigns
    decide +kernel
  have hstarts : ¬ Assigns (planEngine .ascii (fun _ => 0) { now := 0 } "e" ownPolicies
      nativeCapabilities).decisions "a" ⟨.paused, .none, .waitingForDownloadSlot⟩ := by
    unfold Assigns
    decide +kernel
  exact hstarts (hsame.1 hwaits)

end UltraTorrent.Scheduler.OrderIndependence
