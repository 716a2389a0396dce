import UltraTorrent.Cleanup.ProtectionMatcher

/-! The protection registry: what it accepts, and the question cleanup asks it. -/
namespace UltraTorrent.Cleanup.ProtectionService

open Library.EcmaScript
open ProtectionMatcher

structure CreateProtectionDto where
  targetType : ProtectionTargetType
  protectionType : ProtectionType
  reason : String
  mediaItemId : Option String := none
  mediaFileId : Option String := none
  mediaShowId : Option String := none
  mediaLibraryId : Option String := none
  seasonNumber : Option ℤ := none
  episodeNumber : Option ℤ := none
  externalIdentityKey : Option String := none
  pathPrefix : Option String := none
  tagValue : Option String := none
  collectionId : Option String := none
  torrentHash : Option String := none
  protectedUntil : Option Instant := none
  conditionKind : Option ConditionKind := none
  conditionConfig : Option Value := none

def targetTypeText : ProtectionTargetType → String
  | .mediaFile => "media_file"
  | .mediaItem => "media_item"
  | .show => "show"
  | .season => "season"
  | .episode => "episode"
  | .library => "library"
  | .pathPrefix => "path_prefix"
  | .tag => "tag"
  | .collection => "collection"
  | .watchlist => "watchlist"
  | .torrent => "torrent"
  | .externalIdentity => "external_identity"
  | .other text => text

/-- The id a target type is meaningless without, by name and by value. -/
def requiredField (dto : CreateProtectionDto) : Option (String × Option String) :=
  match dto.targetType with
  | .mediaFile => some ("mediaFileId", dto.mediaFileId)
  | .mediaItem => some ("mediaItemId", dto.mediaItemId)
  | .show | .season | .episode => some ("mediaShowId", dto.mediaShowId)
  | .library => some ("mediaLibraryId", dto.mediaLibraryId)
  | .pathPrefix => some ("pathPrefix", dto.pathPrefix)
  | .tag => some ("tagValue", dto.tagValue)
  | .collection => some ("collectionId", dto.collectionId)
  | .torrent => some ("torrentHash", dto.torrentHash)
  | .externalIdentity => some ("externalIdentityKey", dto.externalIdentityKey)
  | .watchlist | .other _ => none

/-- A non-empty string. -/
def filled (text : Option String) : Bool := text.isSome && text ≠ some ""

def assertShape (dto : CreateProtectionDto) (now : Instant) : Except String Unit := do
  match requiredField dto with
  | some (name, value) =>
    if !filled value then
      throw ("targetType \"" ++ targetTypeText dto.targetType ++ "\" requires \"" ++ name ++ "\"")
  | none => pure ()
  if dto.targetType = .season ∧ dto.seasonNumber.isNone then
    throw "A season protection requires seasonNumber"
  if dto.targetType = .episode ∧ (dto.seasonNumber.isNone ∨ dto.episodeNumber.isNone) then
    throw "An episode protection requires seasonNumber and episodeNumber"
  if dto.protectionType = .temporary ∧ dto.protectedUntil.isNone then
    throw "A temporary protection requires protectedUntil"
  if (dto.protectedUntil.map fun t => decide (t ≤ now)).getD false then
    throw "protectedUntil must be in the future"
  if dto.protectionType = .conditional ∧ dto.conditionKind.isNone then
    throw "A conditional protection requires conditionKind"
  if filled dto.pathPrefix && !(Library.PosixPath.startsWith (dto.pathPrefix.getD "") "/") then
    throw "pathPrefix must be absolute"

def legalHoldPermission : String := "library_cleanup.protection.legal_hold"

def assertMayUseLegalHold (protectionType : ProtectionType) (permissions : List String) :
    Except String Unit :=
  if protectionType ≠ .legalHold ∨ legalHoldPermission ∈ permissions then .ok ()
  else .error "A legal hold requires library_cleanup.protection.legal_hold"

/-- The database gives the row its id. -/
def create (dto : CreateProtectionDto) (userId : String) (permissions : List String) (id : String)
    (now : Instant) : Except String ProtectionRecord := do
  assertShape dto now
  assertMayUseLegalHold dto.protectionType permissions
  pure
    { id := id
      targetType := dto.targetType
      protectionType := dto.protectionType
      reason := dto.reason
      mediaItemId := dto.mediaItemId
      mediaFileId := dto.mediaFileId
      mediaShowId := dto.mediaShowId
      mediaLibraryId := dto.mediaLibraryId
      seasonNumber := dto.seasonNumber
      episodeNumber := dto.episodeNumber
      externalIdentityKey := dto.externalIdentityKey
      pathPrefix := dto.pathPrefix
      tagValue := dto.tagValue
      collectionId := dto.collectionId
      torrentHash := dto.torrentHash
      protectedUntil := dto.protectedUntil
      conditionKind := dto.conditionKind
      conditionConfig := dto.conditionConfig.getD .null
      createdByUserId := some userId
      createdAt := some now }

/-- The rows a question reads: active ones, in whatever order the database returns them,
and no more than five thousand. -/
def loaded (registry : List ProtectionRecord) (now : Instant) : List ProtectionRecord :=
  (registry.filter fun p =>
    p.revokedAt.isNone && (p.protectedUntil.map fun t => decide (now < t)).getD true).take 5000

def evaluate (rt : Runtime) (cwd : String) (registry : List ProtectionRecord)
    (target : ProtectionTarget) (now : Instant) : ProtectionVerdict :=
  evaluateProtections rt cwd target (loaded registry now) now

/-- A registry row that came out of `create`. -/
def Accepted (p : ProtectionRecord) : Prop :=
  ∃ dto userId permissions id now, create dto userId permissions id now = .ok p

end UltraTorrent.Cleanup.ProtectionService
