import Mathlib.Data.List.Dedup
import Mathlib.Data.List.Sort
import UltraTorrent.Cleanup.FactAssembly
import UltraTorrent.Cleanup.ProtectionService

/-! The fingerprint a plan pins and the executor compares: the file, what the policy reads
of it, and its protection state. -/
namespace UltraTorrent.Cleanup.CandidateFingerprint

open Library.EcmaScript Library.Kleene
open PolicyEvaluator FactAssembly ProtectionMatcher ProtectionService

structure FingerprintInput where
  mediaFileId : String
  path : String
  fileSizeBytes : ℤ
  modifiedAtMs : Option Instant
  identityKeys : List String
  policyVersionId : String
  facts : List (String × Value)
  factKeys : List String
  isProtected : Bool
  protectionIds : List String
  replacementFileId : Option String

def stringify (rt : Runtime) : Value → String
  | .undefined => "∅"
  | .null => "null"
  | .date ms => rt.toISOString ms
  | .array elements => rt.jsonStringify (.array elements)
  | .object fields => rt.jsonStringify (.object fields)
  | v => rt.string v

/-- `[...xs].sort()`, by code points here. -/
def sorted (texts : List String) : List String := texts.insertionSort (· ≤ ·)

/-- Protection state is always part of it, the facts only as far as the policy reads them. -/
def render (rt : Runtime) (input : FingerprintInput) : String :=
  let parts :=
    ["file:" ++ input.mediaFileId,
      "path:" ++ input.path,
      "size:" ++ toString input.fileSizeBytes,
      "mtime:" ++ (input.modifiedAtMs.map toString).getD "null",
      "identity:" ++ ",".intercalate (sorted input.identityKeys),
      "policyVersion:" ++ input.policyVersionId,
      "protected:" ++ (if input.isProtected then "1" else "0"),
      "protections:" ++ ",".intercalate (sorted input.protectionIds),
      "replacement:" ++ input.replacementFileId.getD "none"]
  "\n".intercalate (parts ++ (sorted input.factKeys).map fun key =>
    "fact:" ++ key ++ "=" ++ stringify rt ((input.facts.lookup key).getD .undefined))

def candidateFingerprint (rt : Runtime) (sha256 : String → String) (input : FingerprintInput) : String :=
  sha256 (render rt input)

/-- Facts keyed by their group and name. -/
def flattenFacts : Value → List (String × Value)
  | .object groups => groups.flatMap fun (group, values) =>
    match values with
    | .object fields => fields.map fun (key, value) => (group ++ "." ++ key, value)
    | _ => []
  | _ => []

def collectFieldIds (conditions : PolicyConditionNode) : List String :=
  (conditions.leaves.map (·.field)).dedup

/-- What the fingerprint reads of the database. -/
structure Catalogue where
  /-- A media file with its item. -/
  file : String → Option (RawMediaFile × RawMediaItem)
  /-- The conditions of a policy version. -/
  conditions : String → Option PolicyConditionNode
  /-- The context of a file apart from its protection state. -/
  context : RawMediaItem → RawMediaFile → RawContext

/-- Discovery asks the registry about the item, the file, the library and the path. -/
def discoveryTarget (item : RawMediaItem) (file : RawMediaFile) : ProtectionTarget where
  mediaItemId := some item.id
  mediaFileId := some file.id
  mediaLibraryId := some item.libraryId
  path := some file.path

/-- The same computation as at discovery, over the world as it is now; `none` when the file
or the policy version has gone. -/
def fingerprintNow (rt : Runtime) (sha256 : String → String) (cwd : String) (catalogue : Catalogue)
    (registry : List ProtectionRecord) (now : Instant) (mediaFileId policyVersionId : String) :
    Option String := do
  let conditions ← catalogue.conditions policyVersionId
  let (file, item) ← catalogue.file mediaFileId
  let protection := evaluate rt cwd registry (discoveryTarget item file) now
  let ctx := { catalogue.context item file with isProtected := protection.isProtected }
  pure <| candidateFingerprint rt sha256
    { mediaFileId := file.id
      path := file.path
      fileSizeBytes := file.size
      modifiedAtMs := file.modifiedAt
      identityKeys := item.externalIds.map fun (provider, id) => provider ++ ":" ++ id
      policyVersionId := policyVersionId
      facts := flattenFacts (assembleEvaluationFacts rt now file item ctx)
      factKeys := collectFieldIds conditions
      isProtected := protection.isProtected
      protectionIds := protection.found.map (·.id)
      replacementFileId := none }

end UltraTorrent.Cleanup.CandidateFingerprint
