import UltraTorrent.Scheduler.OpenWindows
import UltraTorrent.Scheduler.Reconciliation
import UltraTorrent.Scheduler.Assignments

/-! The global rate limits of an engine after a plan is applied. Both directions go to the engine in
one call, which is made when either of them is asked for. -/
namespace UltraTorrent.Scheduler.RateCeilings

open Library.EcmaScript
open Occupancy Policy Planner Schedule OpenWindows Assignments Reconciliation

inductive Direction where
  | download
  | upload
  deriving DecidableEq

namespace Direction

def requested : Direction → TorrentSchedulingPolicy → Setting ℤ
  | download => (·.maxDownloadRateKbps)
  | upload => (·.maxUploadRateKbps)

def field : Direction → LimitField
  | download => .maxDownloadRateKbps
  | upload => .maxUploadRateKbps

/-- `none` is unlimited. -/
def limit : Direction → GlobalRateLimits → Option ℤ
  | download => (·.downloadBytesPerSec)
  | upload => (·.uploadBytesPerSec)

end Direction

/-! ### What is asked for -/

section Requests

variable (rt : Runtime) (policies : List TorrentSchedulingPolicy) (windows : List ScheduleWindow)
  (now : Instant) (context : PlannerTorrent → PolicyMatchContext)

/-- The torrent under its own policies and the schedule. -/
def resolve (t : PlannerTorrent) : PlannerTorrent :=
  { t with policy :=
      (applySchedule rt (resolveEffectivePolicy rt policies (context t)) windows now).toEffectivePolicy }

/-- No policy that applies to one of the torrents, and no window in force, supplies a rate. -/
def Unasked (torrents : List PlannerTorrent) (dir : Direction) : Prop :=
  ∀ t ∈ torrents,
    (∀ p ∈ applicablePolicies rt policies (context t), (dir.requested p).isSupplied = false) ∧
    ∀ w ∈ activeWindows rt windows now, (dir.field.setting w).isSupplied = false

end Requests

/-! ### What is sent -/

def ceilings (policy : EffectivePolicy) : GlobalRateLimits :=
  ⟨kbpsToBytes policy.maxDownloadRateKbps, kbpsToBytes policy.maxUploadRateKbps⟩

/-- Some rate of the policy has a source. -/
def states (policy : EffectivePolicy) : Bool :=
  (policy.sources.maxDownloadRateKbps.or policy.sources.maxUploadRateKbps).any (· ≠ "")

/-- The call made for a plan whose first torrent has the policy. -/
def rateCall (policy : Option EffectivePolicy) : Option GlobalRateLimits :=
  (policy.filter states).map ceilings

/-- The limits an engine accepts are in force afterwards; an error leaves the former ones. -/
def limitsAfter (provider : Provider) (call : Option GlobalRateLimits) (before : GlobalRateLimits) :
    GlobalRateLimits :=
  (call.filter fun limits => provider.setGlobalRateLimits.any fun set => (set limits).isNone).getD
    before

variable {rt : Runtime} {policies : List TorrentSchedulingPolicy} {windows : List ScheduleWindow}
  {now : Instant} {context : PlannerTorrent → PolicyMatchContext} {torrents : List PlannerTorrent}
  {dateNow : String → Instant} {opts : PlannerOptions} {engineId : String}
  {caps : TorrentQueueCapabilities} {provider : Provider} {before : GlobalRateLimits}
  {dir : Direction} {t : PlannerTorrent}

/-- The policy of the torrent that comes first in the plan. -/
def firstPolicy (rt : Runtime) (torrents : List PlannerTorrent) (caps : TorrentQueueCapabilities) :
    Option EffectivePolicy :=
  (planOrder rt torrents caps).head?.map PlannerTorrent.policy

theorem planEngine_bandwidth :
    (planEngine rt dateNow opts engineId torrents caps).decisions.map TorrentDecision.bandwidth =
      (planOrder rt torrents caps).map fun t =>
        (decide t .unchanged .none .engineCannotPause).bandwidth := by
  rw [← assignments_map_snd, ← assignments_map_fst, List.map_map, List.map_map]
  refine List.map_congr_left fun a ha => ?_
  obtain ⟨desired, action, reasonCode, values, hd⟩ := assignments_decides ha
  rw [Function.comp_apply, hd]
  rfl

/-- The one error a plan's rates can lead to is the one its call comes back with. -/
theorem applyBandwidth_failures (p : Progress) :
    (applyBandwidth provider p (planEngine rt dateNow opts engineId torrents caps)).out.failures =
      p.out.failures ++ ((rateCall (firstPolicy rt torrents caps)).bind fun limits =>
        provider.setGlobalRateLimits.bind fun set =>
          (set limits).map fun error => (⟨"-", "set_rate_limits", error⟩ : Failure)).toList := by
  have hhead := congrArg List.head? (@planEngine_bandwidth rt torrents dateNow opts engineId caps)
  rw [List.head?_map, List.head?_map] at hhead
  unfold applyBandwidth firstPolicy
  rw [hhead]
  cases (planOrder rt torrents caps).head? with
  | none => simp [rateCall]
  | some t =>
    have hstates : states t.policy = !((t.policy.sources.maxDownloadRateKbps.or
        t.policy.sources.maxUploadRateKbps).all (· = "")) := by
      unfold states
      cases t.policy.sources.maxDownloadRateKbps.or t.policy.sources.maxUploadRateKbps <;> simp
    simp only [Option.map_some, rateCall, Option.filter_some, hstates, Planner.decide]
    cases (t.policy.sources.maxDownloadRateKbps.or t.policy.sources.maxUploadRateKbps).all
        (· = "") with
    | true => simp
    | false =>
      cases hset : provider.setGlobalRateLimits with
      | none => simp [Progress.limit]
      | some set =>
        simp only [Bool.not_false, Bool.false_eq_true, if_true, if_false, Option.map_some,
          Option.bind_some, ceilings]
        cases set ⟨kbpsToBytes t.policy.maxDownloadRateKbps, kbpsToBytes t.policy.maxUploadRateKbps⟩ with
        | none => split_ifs <;> simp [Progress.limit]
        | some error => split_ifs <;> simp [Progress.limit, Progress.fail]

/-! ### Directions nobody asked about -/

theorem winner_eq_none {α : Type*} {applicable : List TorrentSchedulingPolicy}
    {field : TorrentSchedulingPolicy → Setting α}
    (h : ∀ p ∈ applicable, (field p).isSupplied = false) : winner applicable field = none := by
  refine List.findSome?_eq_none_iff.2 fun scopeType _ => List.find?_eq_none.2 fun p hp => ?_
  rw [h p hp]
  simp

/-- A rate nobody asked about is `none`, as an unlimited one is. -/
theorem limit_resolve (h : Unasked rt policies windows now context torrents dir) (ht : t ∈ torrents) :
    dir.field.limit (resolve rt policies windows now context t).policy = none := by
  obtain ⟨hpolicies, hwindows⟩ := h t ht
  have hscheduled := @limit_foldl dir.field (activeWindows rt windows now)
    { resolveEffectivePolicy rt policies (context t) with
      activeWindowIds := (activeWindows rt windows now).map ScheduleWindow.id
      allowNewDownloads := true }
  rw [List.find?_eq_none.2 fun w hw => by simp [hwindows w hw]] at hscheduled
  refine hscheduled.trans ?_
  have hwinner := winner_eq_none hpolicies
  cases dir <;> exact congrArg (Option.bind · _) hwinner

theorem limit_ceilings (policy : EffectivePolicy) :
    dir.limit (ceilings policy) = kbpsToBytes (dir.field.limit policy) := by
  cases dir <;> rfl

/-- The plan states a rate and the engine takes the call. -/
def Writes (provider : Provider) (policy : Option EffectivePolicy) : Prop :=
  ∃ p, policy = some p ∧ states p = true ∧
    ∃ set, provider.setGlobalRateLimits = some set ∧ set (ceilings p) = none

theorem limitsAfter_of_writes {policy : EffectivePolicy} (hstates : states policy = true)
    {set : GlobalRateLimits → Option String} (hset : provider.setGlobalRateLimits = some set)
    (haccepts : set (ceilings policy) = none) :
    limitsAfter provider (rateCall (some policy)) before = ceilings policy := by
  have hcall : rateCall (some policy) = some (ceilings policy) := by
    rw [rateCall, Option.filter_some, if_pos hstates, Option.map_some]
  rw [limitsAfter, hcall, Option.filter_some, if_pos (by simp [hset, haccepts]), Option.getD_some]

theorem limitsAfter_of_not_writes {policy : Option EffectivePolicy} (h : ¬ Writes provider policy) :
    limitsAfter provider (rateCall policy) before = before := by
  unfold limitsAfter
  rw [Option.filter_eq_none_iff.2, Option.getD_none]
  intro limits hlimits hset
  obtain ⟨p, hp, rfl⟩ := Option.map_eq_some_iff.1 hlimits
  obtain ⟨hpolicy, hstates⟩ := Option.filter_eq_some_iff.1 hp
  obtain ⟨set, hprovider, hnone⟩ := (Option.any_eq_true _ _).1 hset
  exact h ⟨p, hpolicy, hstates, set, hprovider, Option.isNone_iff_eq_none.1 hnone⟩

/-- A policy for everything, with a download rate alone. -/
def downloadsOnly : TorrentSchedulingPolicy where
  id := "p"
  name := "Downloads"
  enabled := true
  scope := ⟨.global, none⟩
  maxDownloadRateKbps := .value 800

def onlyTorrent : PlannerTorrent where
  hash := "t"
  engineId := "e"
  occupancy := .downloadActive
  decision := ⟨"t", 0, .normal, []⟩
  policy := {}
  complete := false

def accepting : Provider :=
  { Provider.obedient 0 with setGlobalRateLimits := some fun _ => none }

end UltraTorrent.Scheduler.RateCeilings
