import UltraTorrent.Intake.PathMapping
import UltraTorrent.Library.Fallible
import UltraTorrent.Library.Table
import UltraTorrent.Library.WhiteSpace

/-! Rules are converted to managed intake, and back. A conversion remembers the save path alone, and names
the place to stage after the last folder of that path. -/
namespace UltraTorrent.Intake.Migration

open Library Library.Fallible Library.Segments Library.WhiteSpace PathMapping

inductive ImportMode where
  | legacyDirect
  | managedIntake
  deriving DecidableEq

structure MediaLibrary where
  name : String
  path : Text
  deriving DecidableEq

structure StorageProfile where
  id : String
  name : String
  isDefault : Bool
  isEnabled : Bool
  stagingRoot : Text
  movieLibrary : Option MediaLibrary
  tvLibrary : Option MediaLibrary
  musicLibrary : Option MediaLibrary
  deriving DecidableEq

structure RssRule where
  id : String
  name : Text
  savePath : Option Text
  importMode : ImportMode
  storageProfileId : Option String
  preMigrationSavePath : Option Text
  deriving DecidableEq

structure Store where
  rules : Table RssRule (·.id)
  profiles : Table StorageProfile (·.id)

/-- The profile flagged as the default, or else the only one that is enabled. -/
def defaultProfile (s : Store) : Option StorageProfile :=
  (s.profiles.rows.find? fun p => p.isDefault && p.isEnabled).or
    (match s.profiles.rows.filter (·.isEnabled) with
      | [p] => some p
      | _ => none)

/-- True when `a` is `b` or sits beneath it. -/
def nests (a b : Text) : Bool := isUnderPrefix a b

def withoutSlashes (text : Text) : Text := (trimmed text).rdropWhile (· = '/')

def folder (savePath : Text) : Option Text := (parts (· = '/') (withoutSlashes savePath)).getLast?

/-- The name of the place to stage: no slash is left in it. -/
def leaf (savePath : Option Text) (ruleName : Text) : Text :=
  trimmed (((savePath.bind folder).getD ruleName).map fun c => if c = '/' then '-' else c)

def stagingPathFor (stagingRoot : Text) (savePath : Option Text) (ruleName : Text) : Text :=
  withoutSlashes stagingRoot ++ '/' :: leaf savePath ruleName

example : stagingPathFor "/downloads/Intake/".toList (some "/tv/9-1-1 (2018)".toList) "9-1-1".toList =
    "/downloads/Intake/9-1-1 (2018)".toList := by decide +kernel

inductive MigrationVerdict where
  | convertible
  | alreadyManaged
  | noProfile
  | stagingConflict
  deriving DecidableEq

structure RuleMigrationPreview where
  ruleId : String
  name : Text
  currentSavePath : Option Text
  proposedSavePath : Option Text
  profileId : Option String
  profileName : Option String
  verdict : MigrationVerdict
  reason : Option String
  deriving DecidableEq

/-- The profile that was asked for, the rule's own, or the default. An empty id is none. -/
def profileFor (s : Store) (profileId : Option String) (rule : RssRule) : Option StorageProfile :=
  match (profileId.or rule.storageProfileId).filter (· ≠ "") with
  | some id => s.profiles.find id
  | none => defaultProfile s

/-- The library that a place to stage would lie in. -/
def conflict (profile : StorageProfile) (proposed : Text) : Option MediaLibrary :=
  (([profile.movieLibrary, profile.tvLibrary, profile.musicLibrary].filterMap id).filter
    fun l => l.path ≠ []).find? fun l => nests proposed l.path

def previewRule (s : Store) (profileId : Option String) (rule : RssRule) : RuleMigrationPreview :=
  let profile := profileFor s profileId rule
  let base (proposed : Option Text) (verdict : MigrationVerdict) (reason : Option String) :
      RuleMigrationPreview :=
    ⟨rule.id, rule.name, rule.savePath, proposed, profile.map (·.id), profile.map (·.name), verdict, reason⟩
  if rule.importMode = .managedIntake then base none .alreadyManaged none
  else match profile with
    | none =>
      base none .noProfile (some "No storage profile resolves for this rule, so there is nowhere to stage.")
    | some p =>
      let proposed := stagingPathFor p.stagingRoot rule.savePath rule.name
      match conflict p proposed with
      | some library =>
        base (some proposed) .stagingConflict
          (some ("The staging path would sit inside the \"" ++ library.name ++ "\" library."))
      | none => base (some proposed) .convertible none

/-- The order of the rules is left open. -/
def preview (s : Store) (profileId : Option String) : List RuleMigrationPreview :=
  s.rules.rows.map (previewRule s profileId)

def convert (p : RuleMigrationPreview) (rule : RssRule) : RssRule :=
  { rule with
    preMigrationSavePath := p.currentSavePath
    savePath := p.proposedSavePath
    importMode := .managedIntake
    storageProfileId := p.profileId }

def isConvertible (p : RuleMigrationPreview) : Bool :=
  p.verdict = .convertible && p.proposedSavePath.any (· ≠ [])

structure ApplyResult where
  converted : ℕ
  skipped : List RuleMigrationPreview

def apply (s : Store) (ruleIds : List String) : Except String (ApplyResult × Store) :=
  if ruleIds = [] then .error "No rules were selected."
  else
    let fresh := (preview s none).filter fun p => ruleIds.contains p.ruleId
    let ok := fresh.filter isConvertible
    let rules := ok.foldl (fun rules p => rules.updateAt p.ruleId (convert p)) s.rules
    .ok (⟨ok.length, fresh.filter fun p => p.verdict ≠ .convertible⟩, { s with rules })

/-- The row with what was remembered of it. -/
def restore (r : RssRule) (rule : RssRule) : RssRule :=
  { rule with
    savePath := r.preMigrationSavePath
    importMode := .legacyDirect
    preMigrationSavePath := none }

structure RevertResult where
  reverted : ℕ
  skipped : List Text

def revert (s : Store) (ruleIds : List String) : Except String (RevertResult × Store) :=
  if ruleIds = [] then .error "No rules were selected."
  else
    let found := s.rules.rows.filter fun r => ruleIds.contains r.id
    let restorable := found.filter fun r => r.preMigrationSavePath ≠ none
    let skipped := found.filter fun r => r.preMigrationSavePath = none
    let rules := restorable.foldl (fun rules r => rules.updateAt r.id (restore r)) s.rules
    .ok (⟨restorable.length, skipped.map (·.name)⟩, { s with rules })

/-- A conversion and the way back. -/
def applyAndRevert (s : Store) (ruleIds : List String) : Except String Store := do
  let (_, s) ← apply s ruleIds
  let (_, s) ← revert s ruleIds
  return s

/-! ### The way back -/

section

variable {s s' : Store} {ids : List String} {rule : RssRule} {result : ApplyResult} {result' : RevertResult}

def converted (s : Store) (ids : List String) : List RssRule :=
  s.rules.rows.filter fun rule => ids.contains rule.id && isConvertible (previewRule s none rule)

theorem previewRule_id (s : Store) (profileId : Option String) (rule : RssRule) :
    (previewRule s profileId rule).ruleId = rule.id := by
  unfold previewRule
  dsimp only
  split_ifs
  · rfl
  · split
    · rfl
    · split <;> rfl

theorem previews_eq (s : Store) (ids : List String) :
    ((preview s none).filter fun p => ids.contains p.ruleId).filter isConvertible =
      (converted s ids).map (previewRule s none) := by
  rw [preview, List.filter_map, List.filter_map, List.filter_filter, converted]
  refine congrArg _ (List.filter_congr fun rule _ => ?_)
  simp only [Function.comp_apply, previewRule_id, Bool.and_comm]

/-- What is known of a rule that can be converted. -/
theorem previewRule_convertible {profileId : Option String} (h : isConvertible (previewRule s profileId rule) = true) :
    ∃ p, profileFor s profileId rule = some p ∧ rule.importMode = .legacyDirect ∧
      (previewRule s profileId rule).currentSavePath = rule.savePath ∧
      (previewRule s profileId rule).proposedSavePath =
        some (stagingPathFor p.stagingRoot rule.savePath rule.name) ∧
      (previewRule s profileId rule).profileId = some p.id := by
  have hverdict : (previewRule s profileId rule).verdict = .convertible := by
    rw [isConvertible, Bool.and_eq_true, decide_eq_true_eq] at h
    exact h.1
  unfold previewRule at hverdict ⊢
  dsimp only at hverdict ⊢
  split_ifs at hverdict ⊢ with hmode
  cases hprofile : profileFor s profileId rule with
  | none =>
    rw [hprofile] at hverdict
    cases hverdict
  | some p =>
    rw [hprofile] at hverdict
    dsimp only at hverdict ⊢
    cases hconflict : conflict p (stagingPathFor p.stagingRoot rule.savePath rule.name) with
    | some library =>
      rw [hconflict] at hverdict
      cases hverdict
    | none =>
      refine ⟨p, rfl, ?_, rfl, rfl, rfl⟩
      cases hrule : rule.importMode with
      | legacyDirect => rfl
      | managedIntake => exact absurd hrule hmode

theorem mem_converted : rule ∈ converted s ids ↔ rule ∈ s.rules.rows ∧ rule.id ∈ ids ∧
    isConvertible (previewRule s none rule) = true := by
  rw [converted, List.mem_filter, Bool.and_eq_true, List.contains_iff_mem]

theorem find_apply (h : apply s ids = .ok (result, s')) (hrule : rule ∈ converted s ids) :
    s'.rules.find rule.id = some (convert (previewRule s none rule) rule) := by
  obtain ⟨hmem, -, -⟩ := mem_converted.1 hrule
  unfold apply at h
  dsimp only at h
  split_ifs at h
  obtain ⟨-, rfl⟩ := Prod.mk.inj (Except.ok.inj h)
  have hnodup : (((converted s ids).map (previewRule s none)).map (·.ruleId)).Nodup := by
    rw [List.map_map, show (fun p : RuleMigrationPreview => p.ruleId) ∘ previewRule s none = (·.id) from
      funext (previewRule_id s none)]
    exact s.rules.nodup.sublist (List.filter_sublist.map _)
  have hfind := (Table.find_foldl_updateAt (f := convert) (fun _ _ => rfl) hnodup s.rules).1 _
    (List.mem_map_of_mem hrule)
  rw [previewRule_id, Table.find_key hmem] at hfind
  rw [previews_eq]
  exact hfind

theorem find_revert {id : String} (h : revert s ids = .ok (result', s')) (hfind : s.rules.find id = some rule)
    (hid : id ∈ ids) : s'.rules.find id =
      some (if rule.preMigrationSavePath = none then rule else restore rule rule) := by
  obtain ⟨hmem, rfl⟩ := Table.find_eq_some.1 hfind
  unfold revert at h
  dsimp only at h
  split_ifs at h
  obtain ⟨-, rfl⟩ := Prod.mk.inj (Except.ok.inj h)
  have hnodup : (((s.rules.rows.filter fun r => ids.contains r.id).filter fun r =>
      r.preMigrationSavePath ≠ none).map (·.id)).Nodup :=
    s.rules.nodup.sublist ((List.filter_sublist.trans List.filter_sublist).map _)
  obtain ⟨hown, hother⟩ := Table.find_foldl_updateAt (f := restore) (fun _ _ => rfl) hnodup s.rules
  dsimp only
  split_ifs with hpath
  · rw [← hfind]
    refine hother _ fun hrestored => ?_
    obtain ⟨r, hr, hreq⟩ := List.mem_map.1 hrestored
    rw [List.mem_filter, List.mem_filter] at hr
    obtain rfl := Table.eq_of_key hr.1.1 hmem hreq
    simp [hpath] at hr
  · have hrestored := hown rule (by simp [hmem, hid, hpath])
    rw [hfind] at hrestored
    exact hrestored

/-- What a conversion and the way back should leave alone. -/
def columns (rule : RssRule) : Option Text × ImportMode × Option String :=
  (rule.savePath, rule.importMode, rule.storageProfileId)

/-- Every rule that is converted comes back as it was. -/
def Restores (s : Store) (ids : List String) : Prop := ∀ s', applyAndRevert s ids = .ok s' →
  ∀ rule ∈ converted s ids, (s'.rules.find rule.id).map columns = some (columns rule)

/-- Every rule that is converted has a save path, and names its profile itself. -/
def Remembered (s : Store) (ids : List String) : Prop := ∀ rule ∈ converted s ids,
  rule.savePath ≠ none ∧ rule.storageProfileId = (profileFor s none rule).map (·.id)

theorem columns_applyAndRevert (h : applyAndRevert s ids = .ok s') (hrule : rule ∈ converted s ids) :
    (s'.rules.find rule.id).map columns = some (columns rule) ↔
      rule.savePath ≠ none ∧ rule.storageProfileId = (profileFor s none rule).map (·.id) := by
  obtain ⟨⟨result, s₁⟩, happly, h⟩ := bind_eq_ok.1 h
  obtain ⟨⟨result', s₂⟩, hrevert, h⟩ := bind_eq_ok.1 h
  obtain rfl : s₂ = s' := Except.ok.inj h
  obtain ⟨-, hid, hconvertible⟩ := mem_converted.1 hrule
  obtain ⟨p, hprofile, hmode, hcurrent, hproposed, hprofileId⟩ := previewRule_convertible hconvertible
  have hremembered : (convert (previewRule s none rule) rule).preMigrationSavePath = rule.savePath := hcurrent
  rw [find_revert hrevert (find_apply happly hrule) hid, hremembered, Option.map_some, Option.some_inj, hprofile]
  split_ifs with hpath
  · -- nothing was remembered, and the rule stays where it is
    have hleft : columns (convert (previewRule s none rule) rule) =
        (some (stagingPathFor p.stagingRoot rule.savePath rule.name), .managedIntake, some p.id) := by
      rw [← hproposed, ← hprofileId]
      rfl
    rw [hleft, columns, hpath]
    simp
  · have hback : columns (restore (convert (previewRule s none rule) rule) (convert (previewRule s none rule) rule)) =
        (rule.savePath, .legacyDirect, some p.id) := by
      rw [← hcurrent, ← hprofileId]
      rfl
    rw [hback, columns, hmode]
    simp [hpath, eq_comm]

theorem restores_iff (s : Store) (ids : List String) : Restores s ids ↔ Remembered s ids := by
  constructor
  · intro h rule hrule
    have hids : ids ≠ [] := by
      rintro rfl
      exact absurd (mem_converted.1 hrule).2.1 List.not_mem_nil
    obtain ⟨s', hs'⟩ : ∃ s', applyAndRevert s ids = .ok s' := by
      rw [applyAndRevert, apply, if_neg hids]
      dsimp only [bind, Except.bind]
      rw [revert, if_neg hids]
      exact ⟨_, rfl⟩
    exact (columns_applyAndRevert hs' hrule).1 (h s' hs' rule hrule)
  · exact fun h s' hs' rule hrule => (columns_applyAndRevert hs' hrule).2 (h rule hrule)

/-! ### The place to stage -/

theorem no_slash_leaf (savePath : Option Text) (ruleName : Text) : Free (· = '/') (leaf savePath ruleName) := by
  intro c hc
  have hmem := (List.rdropWhile_prefix _ _).subset hc
  obtain ⟨d, -, rfl⟩ := List.mem_map.1 ((List.dropWhile_suffix _).subset hmem)
  split_ifs with hd
  · decide
  · exact decide_eq_false hd

/-- A place to stage is a root and a name in it. -/
theorem stagingPathFor_inj {root root' name name' : Text} {savePath savePath' : Option Text} :
    stagingPathFor root savePath name = stagingPathFor root' savePath' name' ↔
      withoutSlashes root = withoutSlashes root' ∧ leaf savePath name = leaf savePath' name' := by
  constructor
  · have haligned : Aligned (· = '/') (leaf savePath name) (leaf savePath' name') :=
      .inr ⟨no_slash_leaf _ _, no_slash_leaf _ _⟩
    exact last_unique (by decide) haligned
  · rintro ⟨hroot, hleaf⟩
    rw [stagingPathFor, stagingPathFor, hroot, hleaf]

/-- Two rules that can be converted. -/
def BothConvertible (s : Store) (profileId : Option String) (rule rule' : RssRule) : Prop :=
  (rule ∈ s.rules.rows ∧ isConvertible (previewRule s profileId rule) = true) ∧
    rule' ∈ s.rules.rows ∧ isConvertible (previewRule s profileId rule') = true

/-- Rules that save to different paths stage at different ones. -/
def StagesApart (s : Store) (profileId : Option String) : Prop := ∀ rule rule', BothConvertible s profileId rule rule' →
  rule.savePath ≠ rule'.savePath →
    (previewRule s profileId rule).proposedSavePath ≠ (previewRule s profileId rule').proposedSavePath

/-- Rules that save to different paths save to folders of different names, or stage under different roots. -/
def FoldersApart (s : Store) (profileId : Option String) : Prop := ∀ rule rule', BothConvertible s profileId rule rule' →
  rule.savePath ≠ rule'.savePath →
    ¬ ((profileFor s profileId rule).map (withoutSlashes ·.stagingRoot) =
      (profileFor s profileId rule').map (withoutSlashes ·.stagingRoot) ∧
      leaf rule.savePath rule.name = leaf rule'.savePath rule'.name)

theorem stagesApart_iff (s : Store) (profileId : Option String) :
    StagesApart s profileId ↔ FoldersApart s profileId := by
  refine forall_congr' fun rule => forall_congr' fun rule' => forall_congr' fun hboth => forall_congr' fun _ => ?_
  obtain ⟨p, hp, -, -, hproposed, -⟩ := previewRule_convertible hboth.1.2
  obtain ⟨p', hp', -, -, hproposed', -⟩ := previewRule_convertible hboth.2.2
  rw [hproposed, hproposed', hp, hp', ne_eq, Option.some_inj, stagingPathFor_inj, Option.map_some, Option.map_some,
    Option.some_inj]

/-- What a migration takes back, and where it keeps rules apart. -/
theorem migration_spec (s : Store) (ids : List String) (profileId : Option String) :
    (Restores s ids ↔ Remembered s ids) ∧ (StagesApart s profileId ↔ FoldersApart s profileId) :=
  ⟨restores_iff s ids, stagesApart_iff s profileId⟩

def ruleAt (id : String) (savePath : Text) : RssRule := ⟨id, id.toList, some savePath, .legacyDirect, none, none⟩

/-- Two shows of one name in different places, and the one profile. -/
def twoShows : Store where
  rules := ⟨[ruleAt "a" "/tv/A/Show".toList, ruleAt "b" "/tv/B/Show".toList], by decide⟩
  profiles := ⟨[⟨"p", "Staging", true, true, "/intake".toList, none, none, none⟩], by decide⟩

theorem not_restored_nor_apart :
    (¬ ∀ s ids, Restores s ids) ∧ ¬ ∀ s profileId, StagesApart s profileId := by
  constructor
  · intro h
    have hmem : ruleAt "a" "/tv/A/Show".toList ∈ converted twoShows ["a"] := by decide +kernel
    have hremembered := (restores_iff twoShows ["a"]).1 (h twoShows ["a"]) _ hmem
    exact absurd hremembered.2 (by decide +kernel)
  · intro h
    have hfolders := (stagesApart_iff twoShows none).1 (h twoShows none)
    exact hfolders (ruleAt "a" "/tv/A/Show".toList) (ruleAt "b" "/tv/B/Show".toList)
      ⟨⟨by decide, by decide +kernel⟩, by decide, by decide +kernel⟩ (by decide) (by decide +kernel)

end

end UltraTorrent.Intake.Migration
