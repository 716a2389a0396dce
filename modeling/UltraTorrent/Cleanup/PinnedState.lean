import Mathlib.Data.String.Basic
import UltraTorrent.Cleanup.CandidateFingerprint
import UltraTorrent.Cleanup.TypedComparisons
import UltraTorrent.Library.Segments
import UltraTorrent.Library.Text

/-! What the string under a fingerprint says. It is written line by line, so as long as no text
runs over its line two strings are equal just when every line is, and each line gives back what it
was written from. -/
namespace UltraTorrent.Cleanup.PinnedState

open Library.EcmaScript Library.Kleene Library.Segments
open ConditionCatalog PolicyEvaluator PolicyDocument PolicyValidator FactAssembly ProtectionMatcher
  ProtectionService CandidateFingerprint TypedComparisons

/-! ### Lines -/

def newline (c : Char) : Bool := c = '\n'

def OneLine (text : String) : Prop := '\n' ∉ text.toList

instance (text : String) : Decidable (OneLine text) := inferInstanceAs (Decidable (_ ∉ _))

/-- Two texts on one line: the same, or neither runs over it. -/
def InLine (a b : String) : Prop := a = b ∨ (OneLine a ∧ OneLine b)

def mtimeText (modifiedAtMs : Option Instant) : String := (modifiedAtMs.map toString).getD "null"

def identityText (input : FingerprintInput) : String := ",".intercalate (sorted input.identityKeys)

def protectionText (input : FingerprintInput) : String :=
  ",".intercalate (sorted input.protectionIds)

def factText (rt : Runtime) (input : FingerprintInput) (key : String) : String :=
  stringify rt ((input.facts.lookup key).getD .undefined)

def linesAfterPath (rt : Runtime) (input : FingerprintInput) : List String :=
  ["size:" ++ toString input.fileSizeBytes,
    "mtime:" ++ mtimeText input.modifiedAtMs,
    "identity:" ++ identityText input,
    "policyVersion:" ++ input.policyVersionId,
    "protected:" ++ (if input.isProtected then "1" else "0"),
    "protections:" ++ protectionText input,
    "replacement:" ++ input.replacementFileId.getD "none"] ++
  (sorted input.factKeys).map fun key => "fact:" ++ key ++ "=" ++ factText rt input key

variable {rt : Runtime} {a b : FingerprintInput} {texts texts' : List String}

theorem free_of_oneLine {text : String} (h : OneLine text) : Free newline text.toList := by
  intro c hc
  have hne : c ≠ '\n' := fun heq => h (heq ▸ hc)
  simp [newline, hne]

theorem oneLine_append {text text' : String} : OneLine (text ++ text') ↔ OneLine text ∧ OneLine text' := by
  simp [OneLine, String.toList_append, not_or]

theorem toList_render (rt : Runtime) (input : FingerprintInput) :
    (render rt input).toList =
      ("file:" ++ input.mediaFileId).toList ++ '\n' :: ("path:" ++ input.path).toList ++
        joined '\n' ((linesAfterPath rt input).map String.toList) := by
  have hlines : render rt input = "\n".intercalate (("file:" ++ input.mediaFileId) ::
      ("path:" ++ input.path) :: linesAfterPath rt input) := rfl
  have hbreak : "\n".toList = ['\n'] := by rfl
  rw [hlines, String.toList_intercalate, hbreak, List.map_cons, List.map_cons, intercalate_cons,
    joined_cons, ← List.cons_append, List.append_assoc]

/-- A line is aligned with its counterpart when the texts behind the label are. -/
theorem aligned_label {label text text' : String} (hlabel : OneLine label) (h : InLine text text') :
    Aligned newline (label ++ text).toList (label ++ text').toList := by
  rcases h with rfl | ⟨htext, htext'⟩
  · exact .inl rfl
  · exact .inr ⟨free_of_oneLine (oneLine_append.2 ⟨hlabel, htext⟩),
      free_of_oneLine (oneLine_append.2 ⟨hlabel, htext'⟩)⟩

theorem oneLine_toString_int (n : ℤ) : OneLine (toString n) :=
  Library.Text.notMem_repr (by decide) (by decide) n

theorem toString_int_injective {m n : ℤ} (h : toString m = toString n) : m = n :=
  Library.Text.toList_repr_injective (congrArg String.toList h)

theorem oneLine_mtimeText (modifiedAtMs : Option Instant) : OneLine (mtimeText modifiedAtMs) := by
  cases modifiedAtMs with
  | none => exact (by decide : OneLine "null")
  | some t => exact oneLine_toString_int t

theorem mtimeText_injective {t u : Option Instant} (h : mtimeText t = mtimeText u) : t = u := by
  have hnull : ∀ t : Instant, (toString t : String) ≠ "null" := by
    intro t h
    have hn : 'n' ∉ (toString t : String).toList := Library.Text.notMem_repr (by decide) (by decide) t
    rw [h] at hn
    exact hn (by decide)
  cases t with
  | none => cases u with
    | none => rfl
    | some u => exact absurd h.symm (hnull u)
  | some t => cases u with
    | none => exact absurd h (hnull t)
    | some u => rw [toString_int_injective h]

/-- The facts of two inputs are on one line each. -/
def FactsInLine (rt : Runtime) (a b : FingerprintInput) (key : String) : Prop :=
  factText rt a key = factText rt b key ∨
    (OneLine key ∧ OneLine (factText rt a key) ∧ OneLine (factText rt b key))

theorem linesAfterPath_aligned (hversion : a.policyVersionId = b.policyVersionId)
    (hreplacement : a.replacementFileId = b.replacementFileId) (hkeys : a.factKeys = b.factKeys)
    (hidentity : InLine (identityText a) (identityText b))
    (hprotections : InLine (protectionText a) (protectionText b))
    (hfacts : ∀ key ∈ a.factKeys, FactsInLine rt a b key) :
    List.Forall₂ (Aligned newline) ((linesAfterPath rt a).map String.toList)
      ((linesAfterPath rt b).map String.toList) := by
  have hflag : ∀ flag : Bool, OneLine (if flag then "1" else "0") := by
    intro flag
    cases flag <;> decide
  have hsize := aligned_label (by decide : OneLine "size:")
    (.inr ⟨oneLine_toString_int a.fileSizeBytes, oneLine_toString_int b.fileSizeBytes⟩)
  have hmtime := aligned_label (by decide : OneLine "mtime:")
    (.inr ⟨oneLine_mtimeText a.modifiedAtMs, oneLine_mtimeText b.modifiedAtMs⟩)
  have hprotected := aligned_label (by decide : OneLine "protected:")
    (.inr ⟨hflag a.isProtected, hflag b.isProtected⟩)
  have hfact : List.Forall₂ (Aligned newline)
      (((sorted a.factKeys).map fun key => "fact:" ++ key ++ "=" ++ factText rt a key).map String.toList)
      (((sorted a.factKeys).map fun key => "fact:" ++ key ++ "=" ++ factText rt b key).map
        String.toList) := by
    rw [List.map_map, List.map_map, List.forall₂_map_left_iff, List.forall₂_map_right_iff,
      List.forall₂_same]
    intro key hkey
    rcases hfacts key ((List.perm_insertionSort _ _).mem_iff.1 hkey) with htext | ⟨hline, ha, hb⟩
    · exact .inl (by simp [htext])
    · refine aligned_label (oneLine_append.2 ⟨oneLine_append.2 ⟨?_, hline⟩, ?_⟩) (.inr ⟨ha, hb⟩)
      · decide
      · decide
  unfold linesAfterPath
  rw [List.map_append, List.map_append, ← hkeys, ← hversion, ← hreplacement]
  refine List.rel_append ?_ hfact
  simp only [List.map_cons, List.map_nil, List.forall₂_cons, List.forall₂_nil_left_iff, and_true]
  exact ⟨hsize, hmtime, aligned_label (by decide) hidentity, .inl rfl, hprotected,
    aligned_label (by decide) hprotections, .inl rfl⟩

/-- The same lines are the same texts behind the same labels. -/
theorem linesAfterPath_eq_iff (hversion : a.policyVersionId = b.policyVersionId)
    (hreplacement : a.replacementFileId = b.replacementFileId) (hkeys : a.factKeys = b.factKeys) :
    linesAfterPath rt a = linesAfterPath rt b ↔
      a.fileSizeBytes = b.fileSizeBytes ∧ a.modifiedAtMs = b.modifiedAtMs ∧
      identityText a = identityText b ∧ a.isProtected = b.isProtected ∧
      protectionText a = protectionText b ∧ ∀ key ∈ a.factKeys, factText rt a key = factText rt b key := by
  have hflag : ∀ flag flag' : Bool, (if flag then "1" else "0") = (if flag' then "1" else "0") ↔
      flag = flag' := by decide
  have hsize : ∀ m n : ℤ, (toString m : String) = toString n ↔ m = n := fun m n =>
    ⟨toString_int_injective, congrArg _⟩
  have hmtime : mtimeText a.modifiedAtMs = mtimeText b.modifiedAtMs ↔ a.modifiedAtMs = b.modifiedAtMs :=
    ⟨mtimeText_injective, congrArg _⟩
  have hfacts : ((sorted a.factKeys).map fun key => "fact:" ++ key ++ "=" ++ factText rt a key) =
      ((sorted a.factKeys).map fun key => "fact:" ++ key ++ "=" ++ factText rt b key) ↔
      ∀ key ∈ a.factKeys, factText rt a key = factText rt b key := by
    simp only [List.map_inj_left, String.append_right_inj, sorted,
      (List.perm_insertionSort _ a.factKeys).mem_iff]
  unfold linesAfterPath
  rw [← hkeys, ← hversion, ← hreplacement]
  simp only [List.cons_append, List.nil_append, List.cons.injEq, String.append_right_inj, hsize, hmtime,
    hflag, hfacts, true_and]

theorem render_eq_iff (rt : Runtime) (a b : FingerprintInput) (hid : a.mediaFileId = b.mediaFileId)
    (hversion : a.policyVersionId = b.policyVersionId)
    (hreplacement : a.replacementFileId = b.replacementFileId) (hkeys : a.factKeys = b.factKeys)
    (hidentity : InLine (identityText a) (identityText b))
    (hprotections : InLine (protectionText a) (protectionText b))
    (hfacts : ∀ key ∈ a.factKeys, FactsInLine rt a b key) :
    render rt a = render rt b ↔ a.path = b.path ∧
      a.fileSizeBytes = b.fileSizeBytes ∧ a.modifiedAtMs = b.modifiedAtMs ∧
      identityText a = identityText b ∧ a.isProtected = b.isProtected ∧
      protectionText a = protectionText b ∧ ∀ key ∈ a.factKeys, factText rt a key = factText rt b key := by
  rw [← linesAfterPath_eq_iff hversion hreplacement hkeys]
  constructor
  · intro h
    have htext := congrArg String.toList h
    rw [toList_render, toList_render] at htext
    obtain ⟨hfront, hlines⟩ := joined_unique (by rfl)
      (linesAfterPath_aligned hversion hreplacement hkeys hidentity hprotections hfacts) htext
    rw [hid] at hfront
    have hpath := String.toList_inj.1 (List.cons.inj (List.append_cancel_left hfront)).2
    exact ⟨(String.append_right_inj _).1 hpath,
      List.map_injective_iff.2 (fun _ _ => String.toList_inj.1) hlines⟩
  · rintro ⟨hpath, hlines⟩
    rw [← String.toList_inj, toList_render, toList_render, hid, hpath, hlines]

/-! ### Lists of ids -/

theorem joined_of_perm (h : texts.Perm texts') :
    ",".intercalate (sorted texts) = ",".intercalate (sorted texts') := by
  have hsorted : ∀ xs : List String, (sorted xs).Perm xs := fun xs => List.perm_insertionSort _ xs
  have hlists : sorted texts = sorted texts' :=
    List.Perm.eq_of_pairwise (fun _ _ _ _ => le_antisymm) (List.pairwise_insertionSort _ _)
      (List.pairwise_insertionSort _ _) ((hsorted texts).trans (h.trans (hsorted texts').symm))
  rw [hlists]

theorem sorted_joined_iff (ha : ∀ text ∈ texts, ',' ∉ text.toList)
    (hb : ∀ text ∈ texts', ',' ∉ text.toList) (hempty : texts = [] ↔ texts' = []) :
    ",".intercalate (sorted texts) = ",".intercalate (sorted texts') ↔ texts.Perm texts' := by
  have hsorted : ∀ xs : List String, (sorted xs).Perm xs := fun xs => List.perm_insertionSort _ xs
  refine ⟨fun h => ?_, joined_of_perm⟩
  · have htext := congrArg String.toList h
    rw [String.toList_intercalate, String.toList_intercalate] at htext
    have hchars : ∀ {xs : List String}, (∀ text ∈ xs, ',' ∉ text.toList) →
        ∀ segment ∈ (sorted xs).map String.toList, ',' ∉ segment := by
      intro xs hxs segment hsegment
      obtain ⟨text, htext, rfl⟩ := List.mem_map.1 hsegment
      exact hxs text ((hsorted xs).mem_iff.1 htext)
    have hnil : ∀ {xs : List String}, (sorted xs).map String.toList = [] ↔ xs = [] := by
      intro xs
      rw [List.map_eq_nil_iff, ← List.length_eq_zero_iff, (hsorted xs).length_eq,
        List.length_eq_zero_iff]
    have hsame := intercalate_unique (hchars ha) (hchars hb) (hnil.trans (hempty.trans hnil.symm)) htext
    have hlists : sorted texts = sorted texts' :=
      List.map_injective_iff.2 (fun _ _ => String.toList_inj.1) hsame
    exact (hsorted texts).symm.trans (hlists ▸ hsorted texts')

theorem oneLine_joined (h : ∀ text ∈ texts, OneLine text) : OneLine (",".intercalate (sorted texts)) := by
  have hfree : Free newline ([','].intercalate ((sorted texts).map String.toList)) := by
    refine free_intercalate (by decide) fun segment hsegment => ?_
    obtain ⟨text, htext, rfl⟩ := List.mem_map.1 hsegment
    exact free_of_oneLine (h text ((List.perm_insertionSort _ _).mem_iff.1 htext))
  intro hbreak
  rw [String.toList_intercalate] at hbreak
  have hfalse := hfree '\n' hbreak
  cases hfalse

theorem joined_eq_empty_iff (h : ∀ text ∈ texts, text ≠ "") :
    ",".intercalate (sorted texts) = "" ↔ texts = [] := by
  have hperm := List.perm_insertionSort (· ≤ ·) texts
  have hnil : sorted texts = [] ↔ texts = [] := by
    rw [← List.length_eq_zero_iff, sorted, hperm.length_eq, List.length_eq_zero_iff]
  rw [← hnil, ← String.toList_inj, String.toList_intercalate]
  cases hsorted : sorted texts with
  | nil => simp
  | cons text rest =>
    have htext : text ≠ "" := h text (hperm.mem_iff.1 (by rw [← sorted, hsorted]; exact List.mem_cons_self))
    have hbreak : ",".toList = [','] := by rfl
    simp [hbreak, intercalate_cons, htext]

/-! ### Facts under their names -/

/-- What the fingerprint finds under a condition's id. -/
def pinned (facts : EvaluationFacts) (field : String) : Value :=
  ((flattenFacts facts).lookup field).getD .undefined

theorem lookup_named {group name key : String} (hgroup : '.' ∉ group.toList)
    (hname : '.' ∉ name.toList) (fields : List (String × Value)) :
    (fields.map fun field => (name ++ "." ++ field.1, field.2)).lookup (group ++ "." ++ key) =
      if group = name then fields.lookup key else none := by
  induction fields with
  | nil => simp
  | cons field fields ih =>
    have hsame : (group ++ "." ++ key == name ++ "." ++ field.1) =
        (decide (group = name) && key == field.1) := by
      rw [Bool.eq_iff_iff, beq_iff_eq, Library.Text.marked_inj (by rfl) hgroup hname, Bool.and_eq_true, beq_iff_eq,
        decide_eq_true_eq]
    rw [List.map_cons, List.lookup_cons, List.lookup_cons, hsame, ih]
    by_cases hgroups : group = name
    · simp [hgroups]
    · simp [hgroups]

/-- A group gives its facts to its own name only. -/
theorem lookup_group {group name : String} (hgroup : '.' ∉ group.toList)
    (hname : '.' ∉ name.toList) (values : Value) (key : String) :
    ∃ found : Option Value, found.getD .undefined = values.get key ∧
      (flattenFacts (.object [(name, values)])).lookup (group ++ "." ++ key) =
        if group = name then found else none := by
  cases values with
  | object fields =>
    have hflat : flattenFacts (.object [(name, .object fields)]) =
        fields.map fun field => (name ++ "." ++ field.1, field.2) := by
      simp [flattenFacts]
    rw [hflat]
    exact ⟨_, rfl, lookup_named hgroup hname fields⟩
  | _ => exact ⟨none, rfl, (ite_self none).symm⟩

theorem pinned_path {groups : List (String × Value)} {group key : String}
    (hdots : ∀ name ∈ groups.map Prod.fst, '.' ∉ name.toList) (hnodup : (groups.map Prod.fst).Nodup)
    (hgroup : '.' ∉ group.toList) :
    pinned (.object groups) (group ++ "." ++ key) = ((Value.object groups).get group).get key := by
  induction groups with
  | nil => rfl
  | cons g groups ih =>
    obtain ⟨name, values⟩ := g
    rw [List.map_cons, List.forall_mem_cons] at hdots
    rw [List.map_cons, List.nodup_cons] at hnodup
    obtain ⟨found, hvalue, hfound⟩ := lookup_group hgroup hdots.1 values key
    have hcons : pinned (.object ((name, values) :: groups)) (group ++ "." ++ key) =
        (if group = name then found else none).getD
          (pinned (.object groups) (group ++ "." ++ key)) := by
      rw [← hfound, pinned, pinned, ← Option.getD_or, ← List.lookup_append]
      simp [flattenFacts]
    rw [hcons, ih hdots.2 hnodup.2]
    by_cases hsame : group = name
    · subst hsame
      have hrest : groups.lookup group = none := by
        rw [List.lookup_eq_none_iff]
        intro other hother
        have hne : group ≠ other.1 := fun heq => hnodup.1 (List.mem_map.2 ⟨other, hother, heq.symm⟩)
        simpa using hne
      have hthere : ((Value.object groups).get group).get key = .undefined := by
        simp [Value.get, hrest]
      rw [hthere, if_pos rfl, hvalue]
      simp [Value.get]
    · have hbeq : (group == name) = false := by simpa using hsame
      rw [if_neg hsame, Option.getD_none]
      simp [Value.get, List.lookup_cons, hbeq]

/-! ### A file -/

/-- A file as the fingerprint finds it, and when. -/
structure FileState where
  file : RawMediaFile
  item : RawMediaItem
  /-- The rest of the context, whose protection state is what covers the file. -/
  context : RawContext
  found : List ProtectionMatch
  clock : Instant

namespace FileState

variable (rt : Runtime) (s : FileState)

def facts : EvaluationFacts :=
  assembleEvaluationFacts rt s.clock s.file s.item { s.context with isProtected := !s.found.isEmpty }

def input (policyVersionId : String) (conditions : PolicyConditionNode) : FingerprintInput where
  mediaFileId := s.file.id
  path := s.file.path
  fileSizeBytes := s.file.size
  modifiedAtMs := s.file.modifiedAt
  identityKeys := s.item.externalIds.map fun e => e.1 ++ ":" ++ e.2
  policyVersionId := policyVersionId
  facts := flattenFacts (s.facts rt)
  factKeys := collectFieldIds conditions
  isProtected := !s.found.isEmpty
  protectionIds := s.found.map (·.id)
  replacementFileId := none

/-- The string that is hashed. -/
def hashed (policyVersionId : String) (conditions : PolicyConditionNode) : String :=
  render rt (s.input rt policyVersionId conditions)

end FileState

/-- The state the fingerprint is taken of. -/
def stateNow (rt : Runtime) (cwd : String) (catalogue : Catalogue) (registry : List ProtectionRecord)
    (now : Instant) (file : RawMediaFile) (item : RawMediaItem) : FileState where
  file := file
  item := item
  context := catalogue.context item file
  found := (evaluate rt cwd registry (discoveryTarget item file) now).found
  clock := now

theorem fingerprintNow_eq {sha256 : String → String} {cwd : String} {catalogue : Catalogue}
    {registry : List ProtectionRecord} {now : Instant} {mediaFileId policyVersionId : String}
    {conditions : PolicyConditionNode} {file : RawMediaFile} {item : RawMediaItem}
    (hconditions : catalogue.conditions policyVersionId = some conditions)
    (hfile : catalogue.file mediaFileId = some (file, item)) :
    fingerprintNow rt sha256 cwd catalogue registry now mediaFileId policyVersionId =
      some (sha256 ((stateNow rt cwd catalogue registry now file item).hashed rt policyVersionId
        conditions)) := by
  rw [fingerprintNow, hconditions, Option.bind_eq_bind, Option.bind_some, hfile]
  rfl

def factGroups : List String := ["metadata", "playback", "technical", "storage", "safety"]

/-- A fact of a file is found under its group and its name. -/
theorem pinned_facts (s : FileState) {group : String} (key : String) (hgroup : '.' ∉ group.toList) :
    pinned (s.facts rt) (group ++ "." ++ key) = ((s.facts rt).get group).get key := by
  have hdots : ∀ name ∈ factGroups, '.' ∉ name.toList := by decide
  have hnodup : factGroups.Nodup := by decide
  exact pinned_path hdots hnodup hgroup

end UltraTorrent.Cleanup.PinnedState
