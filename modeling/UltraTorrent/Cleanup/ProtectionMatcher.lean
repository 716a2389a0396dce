import UltraTorrent.Library.EcmaScript
import UltraTorrent.Library.CanonicalPath

/-! Which stored protections cover a target. Every fact the target does not supply is
absent, and an absent fact matches no scope. -/
namespace UltraTorrent.Cleanup.ProtectionMatcher

open Library.EcmaScript Library.PosixPath

inductive ProtectionTargetType where
  | mediaFile
  | mediaItem
  | «show»
  | season
  | episode
  | library
  | pathPrefix
  | tag
  | collection
  | watchlist
  | torrent
  | externalIdentity
  | other (text : String)
  deriving DecidableEq

inductive ProtectionType where
  | permanent
  | temporary
  | conditional
  | legalHold
  | other (text : String)
  deriving DecidableEq

inductive ConditionKind where
  | onWatchlist
  | partiallyWatched
  | torrentRatioBelow
  | recentlyAdded
  | jobActive
  | untilAllWatched
  | other (text : String)
  deriving DecidableEq

structure ProtectionRecord where
  id : String
  targetType : ProtectionTargetType
  protectionType : ProtectionType
  reason : String
  mediaItemId : Option String := none
  mediaFileId : Option String := none
  mediaShowId : Option String := none
  mediaLibraryId : Option String := none
  seasonNumber : Option ℤ := none
  episodeNumber : Option ℤ := none
  externalIdentityKey : Option String := none
  pathPrefix : Option String := none
  tagValue : Option String := none
  collectionId : Option String := none
  torrentHash : Option String := none
  protectedUntil : Option Instant := none
  revokedAt : Option Instant := none
  conditionKind : Option ConditionKind := none
  conditionConfig : Value := .null
  createdByUserId : Option String := none
  createdAt : Option Instant := none

/-- The facts about the thing being considered for cleanup. -/
structure ProtectionTarget where
  mediaItemId : Option String := none
  mediaFileId : Option String := none
  mediaShowId : Option String := none
  mediaLibraryId : Option String := none
  seasonNumber : Option ℤ := none
  episodeNumber : Option ℤ := none
  externalIdentityKeys : List String := []
  path : Option String := none
  tags : List String := []
  collectionIds : List String := []
  onWatchlist : Option Bool := none
  torrentHash : Option String := none
  maximumProgressPercent : Option ℚ := none
  torrentRatio : Option ℚ := none
  addedAt : Option Instant := none
  hasActiveJob : Option Bool := none
  allSelectedUsersWatched : Option Bool := none

structure ProtectionMatch where
  id : String
  targetType : ProtectionTargetType
  protectionType : ProtectionType
  reason : String
  /-- Which scope matched. -/
  scope : String
  protectedUntil : Option Instant
  createdByUserId : Option String
  createdAt : Option Instant
  deriving DecidableEq

structure ProtectionVerdict where
  isProtected : Bool
  hasLegalHold : Bool
  found : List ProtectionMatch
  deriving DecidableEq

def isPathInside (cwd child parent : String) : Bool :=
  if child = "" ∨ parent = "" then false
  else
    let c := resolve cwd child
    let p := resolve cwd parent
    c = p || startsWith c (if endsWith p "/" then p else p ++ "/")

/-- Revoked, or past the end of its window. -/
def isInactive (p : ProtectionRecord) (now : Instant) : Bool :=
  p.revokedAt.isSome || (p.protectedUntil.map fun t => decide (t ≤ now)).getD false

/-- `typeof cfg[key] === 'number'`; a number in a stored document is finite. -/
def configNumber (cfg : Value) (key : String) : Option ℚ :=
  match cfg.get key with
  | .number (.fin q) => some q
  | _ => none

/-- A condition that cannot be evaluated stays protective. -/
def conditionHolds (p : ProtectionRecord) (t : ProtectionTarget) (now : Instant) : Bool :=
  match p.conditionKind with
  | some .onWatchlist => t.onWatchlist ≠ some false
  | some .partiallyWatched =>
    let floor := (configNumber p.conditionConfig "minProgressPercent").getD 1
    (t.maximumProgressPercent.map fun progress => decide (floor ≤ progress)).getD true
  | some .torrentRatioBelow =>
    match configNumber p.conditionConfig "ratio", t.torrentRatio with
    | some limit, some ratio => ratio < limit
    | _, _ => true
  | some .recentlyAdded =>
    match configNumber p.conditionConfig "days", t.addedAt with
    | some days, some addedAt => ((now - addedAt : ℤ) : ℚ) < days * 86400000
    | _, _ => true
  | some .jobActive => t.hasActiveJob ≠ some false
  | some .untilAllWatched => t.allSelectedUsersWatched ≠ some true
  | some (.other _) | none => true

/-- `a && a === b`. -/
def named (a b : Option String) : Bool :=
  match a with
  | none => false
  | some text => text ≠ "" && b = some text

/-- `a != null && a === b`. -/
def numbered (a b : Option ℤ) : Bool := a.isSome && a = b

/-- Does this protection's scope cover the target, and under which label? -/
def scopeMatch (rt : Runtime) (cwd : String) (p : ProtectionRecord) (t : ProtectionTarget) :
    Option String :=
  match p.targetType with
  | .mediaFile => if named p.mediaFileId t.mediaFileId then some "file" else none
  | .mediaItem => if named p.mediaItemId t.mediaItemId then some "item" else none
  | .show => if named p.mediaShowId t.mediaShowId then some "show" else none
  | .season =>
    if named p.mediaShowId t.mediaShowId && numbered p.seasonNumber t.seasonNumber then some "season"
    else none
  | .episode =>
    if named p.mediaShowId t.mediaShowId && numbered p.seasonNumber t.seasonNumber
        && numbered p.episodeNumber t.episodeNumber then some "episode"
    else none
  | .library => if named p.mediaLibraryId t.mediaLibraryId then some "library" else none
  | .pathPrefix =>
    match p.pathPrefix, t.path with
    | some parent, some child =>
      if parent ≠ "" && child ≠ "" && isPathInside cwd child parent then some "path" else none
    | _, _ => none
  | .tag =>
    match p.tagValue with
    | none => none
    | some tag =>
      if tag ≠ "" && t.tags.any (fun x => rt.toLowerCase x = rt.toLowerCase tag) then some "tag"
      else none
  | .collection =>
    match p.collectionId with
    | none => none
    | some id => if id ≠ "" && t.collectionIds.contains id then some "collection" else none
  | .watchlist => if t.onWatchlist = some true then some "watchlist" else none
  | .torrent =>
    match p.torrentHash, t.torrentHash with
    | some mine, some theirs =>
      if mine ≠ "" && theirs ≠ "" && decide (rt.toLowerCase mine = rt.toLowerCase theirs) then
        some "torrent"
      else none
    | _, _ => none
  | .externalIdentity =>
    match p.externalIdentityKey with
    | none => none
    | some key =>
      if key ≠ "" && t.externalIdentityKeys.any (fun k => rt.toLowerCase k = rt.toLowerCase key) then
        some "identity"
      else none
  | .other _ => none

/-- What one protection contributes. -/
def matchOf (rt : Runtime) (cwd : String) (target : ProtectionTarget) (now : Instant)
    (p : ProtectionRecord) : Option ProtectionMatch :=
  if isInactive p now then none
  else match scopeMatch rt cwd p target with
    | none => none
    | some scope =>
      if p.protectionType = .conditional ∧ conditionHolds p target now = false then none
      else some
        { id := p.id
          targetType := p.targetType
          protectionType := p.protectionType
          reason := p.reason
          scope := scope
          protectedUntil := p.protectedUntil
          createdByUserId := p.createdByUserId
          createdAt := p.createdAt }

def evaluateProtections (rt : Runtime) (cwd : String) (target : ProtectionTarget)
    (protections : List ProtectionRecord) (now : Instant) : ProtectionVerdict :=
  let found := protections.filterMap (matchOf rt cwd target now)
  { isProtected := !found.isEmpty
    hasLegalHold := found.any (·.protectionType = .legalHold)
    found := found }

variable {rt : Runtime} {cwd : String} {p : ProtectionRecord} {t : ProtectionTarget} {now : Instant}

def Covers (rt : Runtime) (cwd : String) (p : ProtectionRecord) (t : ProtectionTarget)
    (now : Instant) : Prop :=
  isInactive p now = false ∧ (scopeMatch rt cwd p t).isSome ∧
    (p.protectionType = .conditional → conditionHolds p t now = true)

theorem matchOf_isSome : (matchOf rt cwd t now p).isSome ↔ Covers rt cwd p t now := by
  unfold matchOf Covers
  cases isInactive p now with
  | true => simp
  | false =>
    cases scopeMatch rt cwd p t with
    | none => simp
    | some scope =>
      by_cases hconditional : p.protectionType = .conditional
      · cases conditionHolds p t now <;> simp [hconditional]
      · simp [hconditional]

/-- A target is protected when some protection covers it. -/
theorem isProtected_iff {protections : List ProtectionRecord} :
    (evaluateProtections rt cwd t protections now).isProtected = true ↔
      ∃ p ∈ protections, Covers rt cwd p t now := by
  simp only [evaluateProtections, Bool.not_eq_true', List.isEmpty_eq_false_iff_exists_mem,
    List.mem_filterMap]
  constructor
  · rintro ⟨m, p, hp, hm⟩
    exact ⟨p, hp, matchOf_isSome.1 (by rw [hm]; rfl)⟩
  · rintro ⟨p, hp, hcovers⟩
    obtain ⟨m, hm⟩ := Option.isSome_iff_exists.1 (matchOf_isSome.2 hcovers)
    exact ⟨m, p, hp, hm⟩

theorem conditionHolds_of_unknown (hwatch : t.onWatchlist = none) (hprogress : t.maximumProgressPercent = none)
    (hratio : t.torrentRatio = none) (hadded : t.addedAt = none) (hjob : t.hasActiveJob = none)
    (hall : t.allSelectedUsersWatched = none) : conditionHolds p t now = true := by
  unfold conditionHolds
  split <;> simp_all

end UltraTorrent.Cleanup.ProtectionMatcher
