import UltraTorrent.Library.Fallible
import UltraTorrent.Scheduler.PolicyService

/-! Whether the inherit / unlimited contract survives storage: what each limit ought to
be, judged from what the callers sent, against what the resolver finds in the table. -/
namespace UltraTorrent.Scheduler.Policy.LimitField

open Library.EcmaScript PolicyService

def ofInput : LimitField → PolicyInput → Value
  | .maxConcurrentDownloads => PolicyInput.maxConcurrentDownloads
  | .maxConcurrentSeeds => PolicyInput.maxConcurrentSeeds
  | .maxTotalActive => PolicyInput.maxTotalActive
  | .maxDownloadRateKbps => PolicyInput.maxDownloadRateKbps
  | .maxUploadRateKbps => PolicyInput.maxUploadRateKbps

def ofRow : LimitField → PolicyRow → Option ℤ
  | .maxConcurrentDownloads => PolicyRow.maxConcurrentDownloads
  | .maxConcurrentSeeds => PolicyRow.maxConcurrentSeeds
  | .maxTotalActive => PolicyRow.maxTotalActive
  | .maxDownloadRateKbps => PolicyRow.maxDownloadRateKbps
  | .maxUploadRateKbps => PolicyRow.maxUploadRateKbps

end UltraTorrent.Scheduler.Policy.LimitField

namespace UltraTorrent.Scheduler.Inheritance

open Library.EcmaScript
open Library.Fallible (bind_eq_ok)
open Policy PolicyService

/-- What a caller said about a limit. -/
def supplied : Value → Setting ℤ
  | .undefined => .absent
  | .number (.fin q) => .value q.num
  | _ => .null

/-- A row together with the input it was created from. -/
structure CreatedPolicy (rt : Runtime) where
  id : String
  input : PolicyInput
  row : PolicyRow
  created : create rt id input = .ok row

namespace CreatedPolicy

variable {rt : Runtime}

def applies (c : CreatedPolicy rt) (ctx : PolicyMatchContext) : Bool :=
  c.row.enabled && matchesScope rt ⟨c.row.scopeType, c.row.scopeId⟩ ctx

def wants (c : CreatedPolicy rt) (field : LimitField) : Setting ℤ := supplied (field.ofInput c.input)

end CreatedPolicy

variable {rt : Runtime}

/-- The first policy that applies and satisfies `p`, most specific scope first and in
creation order within a scope. -/
def firstApplicable (table : List (CreatedPolicy rt)) (ctx : PolicyMatchContext)
    (p : CreatedPolicy rt → Bool) : Option (CreatedPolicy rt) :=
  scopePrecedence.findSome? fun scopeType =>
    table.find? fun c => c.applies ctx && c.row.scopeType = scopeType && p c

/-- The limit is what the first applicable policy whose input supplied it said, and
unlimited without a source when none did. -/
def InheritsCorrectly (table : List (CreatedPolicy rt)) (ctx : PolicyMatchContext)
    (field : LimitField) : Prop :=
  let effective := resolveEffectivePolicy rt (loadPolicies (table.map CreatedPolicy.row)) ctx
  match firstApplicable table ctx fun c => (c.wants field).isSupplied with
  | some c => field.limit effective = (c.wants field).orNull
  | none => field.limit effective = none ∧ field.sourceOf effective.sources = none

/-- The first applicable policy mentions the limit, or the first one that does lifts it. -/
def FirstMentions (table : List (CreatedPolicy rt)) (ctx : PolicyMatchContext)
    (field : LimitField) : Prop :=
  match firstApplicable table ctx fun _ => true with
  | none => True
  | some first => (first.wants field).isSupplied = true ∨
      ∃ c, firstApplicable table ctx (fun c => (c.wants field).isSupplied) = some c ∧
        c.wants field = .null

/-! ### What is stored -/

theorem limit_ok {value : Value} {field : String} {setting : Setting ℤ}
    (h : limit value field = .ok setting) : setting = supplied value := by
  unfold limit at h
  split at h
  · exact (Except.ok.inj h).symm
  · exact (Except.ok.inj h).symm
  · split_ifs at h
    exact (Except.ok.inj h).symm
  · exact absurd h nofun

/-- A created row keeps its id, and each limit column holds what was supplied, or `NULL`. -/
theorem create_ok {id : String} {input : PolicyInput} {row : PolicyRow}
    (h : create rt id input = .ok row) :
    row.id = id ∧ ∀ field : LimitField, field.ofRow row = (supplied (field.ofInput input)).orNull := by
  unfold create at h
  simp only [bind_eq_ok] at h
  obtain ⟨name, -, scopeType, -, downloads, hd, seeds, hs, total, ht, down, hdown, up, hup, seed, -, h⟩ := h
  obtain rfl := Except.ok.inj h
  refine ⟨rfl, fun field => ?_⟩
  cases field with
  | maxConcurrentDownloads => exact congrArg Setting.orNull (limit_ok hd)
  | maxConcurrentSeeds => exact congrArg Setting.orNull (limit_ok hs)
  | maxTotalActive => exact congrArg Setting.orNull (limit_ok ht)
  | maxDownloadRateKbps => exact congrArg Setting.orNull (limit_ok hdown)
  | maxUploadRateKbps => exact congrArg Setting.orNull (limit_ok hup)

theorem row_limit (c : CreatedPolicy rt) (field : LimitField) :
    field.ofRow c.row = (c.wants field).orNull :=
  (create_ok c.created).2 field

theorem ofPolicy_toPolicy (row : PolicyRow) (field : LimitField) :
    field.ofPolicy (toPolicy row) = .ofNullable (field.ofRow row) := by
  cases field <;> rfl

/-! ### What the resolver finds -/

theorem limit_resolve (policies : List TorrentSchedulingPolicy) (ctx : PolicyMatchContext)
    (field : LimitField) : field.limit (resolveEffectivePolicy rt policies ctx) =
      (winner (applicablePolicies rt policies ctx) field.ofPolicy).bind
        fun p => (field.ofPolicy p).orNull := by
  cases field <;> rfl

theorem sourceOf_resolve (policies : List TorrentSchedulingPolicy) (ctx : PolicyMatchContext)
    (field : LimitField) : field.sourceOf (resolveEffectivePolicy rt policies ctx).sources =
      (winner (applicablePolicies rt policies ctx) field.ofPolicy).map TorrentSchedulingPolicy.id := by
  cases field <;> rfl

variable (table : List (CreatedPolicy rt)) (ctx : PolicyMatchContext) (field : LimitField)

/-- Every stored policy mentions every limit, so the first applicable one decides. -/
theorem winner_stored :
    winner (applicablePolicies rt (loadPolicies (table.map CreatedPolicy.row)) ctx) field.ofPolicy =
      (firstApplicable table ctx fun _ => true).map fun c => toPolicy c.row := by
  rw [winner, firstApplicable, List.map_findSome?]
  congr 1
  funext scopeType
  simp only [applicablePolicies, loadPolicies, List.find?_filter, List.find?_map, Function.comp_def,
    Option.map_map, ofPolicy_toPolicy, Setting.isSupplied_ofNullable]
  congr 2
  funext c
  simp only [CreatedPolicy.applies, toPolicy, Bool.decide_and, Bool.decide_eq_true, Bool.and_true]
  rw [← Bool.and_assoc, ← Bool.and_assoc, Bool.and_self]
  rfl

theorem resolved_limit :
    field.limit (resolveEffectivePolicy rt (loadPolicies (table.map CreatedPolicy.row)) ctx) =
      (firstApplicable table ctx fun _ => true).bind fun c => (c.wants field).orNull := by
  rw [limit_resolve, winner_stored]
  cases firstApplicable table ctx fun _ => true with
  | none => rfl
  | some c => simp [ofPolicy_toPolicy, row_limit]

theorem resolved_source :
    field.sourceOf
        (resolveEffectivePolicy rt (loadPolicies (table.map CreatedPolicy.row)) ctx).sources =
      (firstApplicable table ctx fun _ => true).map fun c => c.row.id := by
  rw [sourceOf_resolve, winner_stored, Option.map_map]
  rfl

/-! ### First matches -/

variable {table ctx field} {p : CreatedPolicy rt → Bool} {c : CreatedPolicy rt}

theorem firstApplicable_some (h : firstApplicable table ctx p = some c) : p c = true := by
  obtain ⟨-, scopeType, -, -, hfind, -⟩ := List.findSome?_eq_some_iff.1 h
  have := List.find?_some hfind
  simp only [Bool.and_eq_true] at this
  exact this.2

theorem firstApplicable_none (h : (firstApplicable table ctx fun _ => true) = none) :
    firstApplicable table ctx p = none := by
  rw [firstApplicable, List.findSome?_eq_none_iff] at h ⊢
  intro scopeType hs
  have hnone := h scopeType hs
  rw [List.find?_eq_none] at hnone ⊢
  intro c hc hpc
  simp only [Bool.and_eq_true] at hpc
  exact hnone c hc (by simpa using hpc.1)

theorem firstApplicable_of_first (h : (firstApplicable table ctx fun _ => true) = some c)
    (hp : p c = true) : firstApplicable table ctx p = some c := by
  obtain ⟨before, scopeType, after, hsplit, hfind, hbefore⟩ := List.findSome?_eq_some_iff.1 h
  refine List.findSome?_eq_some_iff.2 ⟨before, scopeType, after, hsplit, ?_, fun st hst => ?_⟩
  · obtain ⟨hc, pre, post, htable, hpre⟩ := List.find?_eq_some_iff_append.1 hfind
    refine List.find?_eq_some_iff_append.2 ⟨by simpa [hp] using hc, pre, post, htable, fun d hd => ?_⟩
    have := hpre d hd
    simp only [Bool.and_true, Bool.not_eq_true'] at this
    simp [this]
  · have hnone := List.find?_eq_none.1 (hbefore st hst)
    refine List.find?_eq_none.2 fun d hd hpd => hnone d hd ?_
    simp only [Bool.and_eq_true] at hpd
    simpa using hpd.1

/-- A limit read back from storage is inherited as it was meant exactly when the first
applicable policy itself mentions it, or when the first one that does lifts it. -/
theorem inheritsCorrectly_iff (rt : Runtime) (table : List (CreatedPolicy rt))
    (ctx : PolicyMatchContext) (field : LimitField) :
    InheritsCorrectly table ctx field ↔ FirstMentions table ctx field := by
  unfold InheritsCorrectly FirstMentions
  dsimp only
  rw [resolved_limit, resolved_source]
  cases hfirst : firstApplicable table ctx fun _ => true with
  | none => simp [firstApplicable_none hfirst]
  | some first =>
    cases hs : (first.wants field).isSupplied with
    | true =>
      rw [firstApplicable_of_first hfirst hs]
      simp [hs]
    | false =>
      have habsent : (first.wants field).orNull = none := by
        cases hw : first.wants field <;> simp_all [Setting.isSupplied, Setting.orNull]
      cases hwin : firstApplicable table ctx fun c => (c.wants field).isSupplied with
      | none => simp [hs]
      | some c =>
        have hc : (c.wants field).isSupplied = true := firstApplicable_some hwin
        simp only [Option.bind_some, habsent, hs, Bool.false_eq_true, false_or, Option.some.injEq,
          exists_eq_left']
        cases hw : c.wants field <;> simp_all [Setting.isSupplied, Setting.orNull]

/-! ### A patch that lifts a cap -/

/-- A global cap on downloads. -/
def globalCap : PolicyInput :=
  { name := some "all", maxConcurrentDownloads := .number (.fin 5) }

def seedPatch : PolicyInput :=
  { name := some "one", scopeType := some "torrent", scopeId := some "h",
    maxConcurrentSeeds := .number (.fin 3) }

def storedCap : CreatedPolicy .ascii where
  id := "g"
  input := globalCap
  row :=
    { id := "g", name := "all", enabled := true, scopeType := .global, scopeId := none
      maxConcurrentDownloads := some 5, maxConcurrentSeeds := none, maxTotalActive := none
      maxDownloadRateKbps := none, maxUploadRateKbps := none, seedPolicy := none }
  created := by rfl

def storedPatch : CreatedPolicy .ascii where
  id := "t"
  input := seedPatch
  row :=
    { id := "t", name := "one", enabled := true, scopeType := .torrent, scopeId := some "h"
      maxConcurrentDownloads := none, maxConcurrentSeeds := some 3, maxTotalActive := none
      maxDownloadRateKbps := none, maxUploadRateKbps := none, seedPolicy := none }
  created := by rfl

/-- The patch lifts the cap on downloads it never mentioned. -/
theorem seedPatch_lifts_downloads :
    ¬ InheritsCorrectly [storedCap, storedPatch] { torrentHash := "h", engineId := "e" }
      .maxConcurrentDownloads := by
  intro h
  have hmeant : (firstApplicable [storedCap, storedPatch] { torrentHash := "h", engineId := "e" }
      fun c => (c.wants .maxConcurrentDownloads).isSupplied).map
        (fun c => (c.wants .maxConcurrentDownloads).orNull) = some (some 5) := by decide +kernel
  obtain ⟨c, hfirst, hc⟩ := Option.map_eq_some_iff.1 hmeant
  unfold InheritsCorrectly at h
  simp only [hfirst, hc] at h
  exact absurd h (by decide +kernel)

end UltraTorrent.Scheduler.Inheritance
