import Mathlib.Data.List.Dedup
import UltraTorrent.Library.EcmaScript

/-! The scan for missing subtitles: what an item has is compared with what its library wants, and
for each gap the best acceptable candidate is installed. -/
namespace UltraTorrent.Subtitles.MissingScan

open Library.EcmaScript

/-! ### Language tags -/

/-- `tag.split(/[-_]/)[0]`. -/
def firstPart (tag : String) : List Char := tag.toList.takeWhile fun c => !(c = '-' || c = '_')

variable (rt : Runtime)

def baseLang (code : String) : List Char := firstPart (rt.toLowerCase (rt.trim code))

def undetermined : List Char := "und".toList

/-- What the present tags stand for; an undetermined one stands for nothing. -/
def presentLangs (present : List String) : List (List Char) :=
  (present.map (baseLang rt)).filter fun l => l ≠ [] ∧ l ≠ undetermined

/-- The loop over the wanted tags, with the languages it has and those it has seen. -/
def missingFrom (langs seen : List (List Char)) : List String → List String
  | [] => []
  | w :: wanted =>
    let b := baseLang rt w
    if b = [] ∨ b ∈ seen then missingFrom langs seen wanted
    else if b ∈ langs then missingFrom langs (b :: seen) wanted
    else rt.trim w :: missingFrom langs (b :: seen) wanted

def missingLanguages (present wanted : List String) : List String :=
  missingFrom rt (presentLangs rt present) [] wanted

/-- What the candidates' tags are searched for; `lang` comes out of `missingLanguages`. -/
def searched (lang : String) : List Char := firstPart (rt.toLowerCase lang)

section Missing

variable {rt} {present wanted : List String} {langs seen : List (List Char)} {lang : String}

theorem mem_presentLangs {l : List Char} :
    l ∈ presentLangs rt present ↔ l ∈ present.map (baseLang rt) ∧ l ≠ [] ∧ l ≠ undetermined := by
  rw [presentLangs, List.mem_filter, decide_eq_true_iff]

/-- A missing language is a new one, and none of those that are there. -/
theorem searched_of_mem (h : lang ∈ missingFrom rt langs seen wanted) :
    searched rt lang ≠ [] ∧ searched rt lang ∉ seen ∧ searched rt lang ∉ langs := by
  induction wanted generalizing seen with
  | nil => cases h
  | cons w wanted ih =>
    unfold missingFrom at h
    dsimp only at h
    split_ifs at h with hskip hhave
    · exact ih h
    · obtain ⟨hne, hseen, hlangs⟩ := ih h
      exact ⟨hne, fun hmem => hseen (List.mem_cons_of_mem _ hmem), hlangs⟩
    · rcases List.mem_cons.1 h with rfl | h
      · exact ⟨fun hb => hskip (.inl hb), fun hb => hskip (.inr hb), hhave⟩
      · obtain ⟨hne, hseen, hlangs⟩ := ih h
        exact ⟨hne, fun hmem => hseen (List.mem_cons_of_mem _ hmem), hlangs⟩

theorem nodup_missingFrom : ((missingFrom rt langs seen wanted).map (searched rt)).Nodup := by
  induction wanted generalizing seen with
  | nil => exact List.nodup_nil
  | cons w wanted ih =>
    unfold missingFrom
    dsimp only
    split_ifs with hskip hhave
    · exact ih
    · exact ih
    · rw [List.map_cons, List.nodup_cons]
      refine ⟨fun hmem => ?_, ih⟩
      obtain ⟨lang, hlang, heq⟩ := List.mem_map.1 hmem
      exact (searched_of_mem hlang).2.1 (heq ▸ List.mem_cons_self)

theorem mem_missingFrom {langs' : List (List Char)} (h : lang ∈ missingFrom rt langs seen wanted)
    (hnot : searched rt lang ∉ langs') : lang ∈ missingFrom rt langs' seen wanted := by
  induction wanted generalizing seen with
  | nil => cases h
  | cons w wanted ih =>
    unfold missingFrom at h ⊢
    dsimp only at h ⊢
    split_ifs at h with hskip hhave
    · rw [if_pos hskip]
      exact ih h
    · rw [if_neg hskip]
      split_ifs
      · exact ih h
      · exact List.mem_cons_of_mem _ (ih h)
    · rw [if_neg hskip]
      rcases List.mem_cons.1 h with rfl | h
      · have hnew : baseLang rt w ∉ langs' := hnot
        rw [if_neg hnew]
        exact List.mem_cons_self
      · split_ifs
        · exact ih h
        · exact List.mem_cons_of_mem _ (ih h)

end Missing

/-! ### Installing -/

structure Policy where
  requiredLanguages : List String
  preferredLanguages : List String
  minimumScore : ℤ

def Policy.wanted (policy : Policy) : List String :=
  (policy.requiredLanguages ++ policy.preferredLanguages).eraseDups

inductive ScoreTier where
  | auto
  | download
  | present
  | reject
  deriving DecidableEq

structure Candidate where
  id : String
  language : String
  score : ℤ
  scoreTier : ScoreTier
  deriving DecidableEq

structure MediaSubtitle where
  path : String
  language : String
  deriving DecidableEq

structure SubtitleDownload where
  path : String
  language : String
  deriving DecidableEq

structure Item where
  subtitles : List MediaSubtitle
  subtitleDownloads : List SubtitleDownload
  deriving DecidableEq

def Item.present (item : Item) : List String :=
  item.subtitles.map (·.language) ++ item.subtitleDownloads.map (·.language)

def record (item : Item) (path language : String) : Item :=
  { item with subtitleDownloads := item.subtitleDownloads ++ [⟨path, language⟩] }

/-- Makes the installed subtitle known to the media manager, unless its path is. -/
def linkToMediaSubtitle (item : Item) (path language : String) : Item :=
  if item.subtitles.any (·.path = path) then item
  else { item with subtitles := item.subtitles ++ [⟨path, language⟩] }

/-- How a download goes. -/
inductive Outcome where
  /-- Without the candidate, its item or its provider nothing can be tried. -/
  | notFound
  /-- It fails, or what was downloaded is not valid, and the calls that report it may fail as well. -/
  | failed (told : Bool)
  /-- A call fails once the download is on record. -/
  | recorded (path : String) (linked told : Bool)
  | installed (path : String)
  deriving DecidableEq

def isInstalled : Outcome → Bool
  | .installed _ => true
  | _ => false

/-- The item afterwards, and whether the call says it has `installed`, unless it throws. What the
`catch` calls is in no `try` of its own. -/
def downloadCandidate (item : Item) (c : Candidate) (outcome : Outcome) : Item × Option Bool :=
  if c.scoreTier = .reject then (item, none)
  else
    match outcome with
    | .notFound => (item, none)
    | .failed told => (item, if told then some false else none)
    | .recorded path linked told =>
      let item' := record item path c.language
      (if linked then linkToMediaSubtitle item' path c.language else item', if told then some false else none)
    | .installed path => (linkToMediaSubtitle (record item path c.language) path c.language, some true)

/-- One pass over an item: what the providers answer, and how the download for each language goes. -/
structure Scan where
  policy : Policy
  autoDownload : Bool
  /-- As they are stored, the best score first; none when the search fails. -/
  candidates : List Candidate
  download : String → Outcome

variable (scan : Scan)

def best (lang : String) : Option Candidate :=
  scan.candidates.find? fun c =>
    (searched rt lang).isPrefixOf (rt.toLowerCase c.language).toList &&
      (scan.policy.minimumScore ≤ c.score && (c.scoreTier = .auto || c.scoreTier = .download))

/-- The loop over the missing languages: the item afterwards, and what was installed for which. A
download that throws ends it. -/
def autoFetch (item : Item) : List String → Item × List (String × Candidate)
  | [] => (item, [])
  | lang :: missing =>
    match best rt scan lang with
    | none => autoFetch item missing
    | some c =>
      match downloadCandidate item c (scan.download lang) with
      | (item', none) => (item', [])
      | (item', some installed) =>
        let rest := autoFetch item' missing
        (rest.1, if installed then (lang, c) :: rest.2 else rest.2)

def reported (item : Item) : List String :=
  missingLanguages rt item.present scan.policy.wanted

def scanItem (item : Item) : Item × List (String × Candidate) :=
  if scan.autoDownload then autoFetch rt scan item (reported rt scan item) else (item, [])

/-! ### What a scan leaves behind -/

def throws (c : Candidate) (outcome : Outcome) : Bool :=
  c.scoreTier = .reject ||
    match outcome with
    | .notFound => true
    | .failed told | .recorded _ _ told => !told
    | .installed _ => false

/-- The languages the loop comes to: a download that throws ends it. -/
def reached : List String → List String
  | [] => []
  | lang :: missing =>
    lang :: if (best rt scan lang).any fun c => throws c (scan.download lang) then [] else reached missing

def isRecorded (c : Candidate) (outcome : Outcome) : Bool :=
  c.scoreTier ≠ .reject &&
    match outcome with
    | .recorded .. | .installed _ => true
    | _ => false

def records (missing : List String) : List (String × Candidate) :=
  (reached rt scan missing).filterMap fun lang =>
    ((best rt scan lang).filter fun c => isRecorded c (scan.download lang)).map fun c => (lang, c)

variable {rt} {scan : Scan} {item : Item} {missing : List String}

theorem mem_present_link {path language l : String} (h : language ∈ item.present) :
    l ∈ (linkToMediaSubtitle item path language).present ↔ l ∈ item.present := by
  unfold linkToMediaSubtitle
  split_ifs
  · rfl
  · simp only [Item.present, List.map_append, List.mem_append, List.map_cons, List.map_nil,
      List.mem_singleton] at h ⊢
    constructor
    · rintro ((hl | rfl) | hl)
      · exact .inl hl
      · exact h
      · exact .inr hl
    · rintro (hl | hl)
      · exact .inl (.inl hl)
      · exact .inr hl

theorem mem_present_record {path language l : String} :
    l ∈ (record item path language).present ↔ l ∈ item.present ∨ l = language := by
  simp only [Item.present, record, List.map_append, List.mem_append, List.map_cons, List.map_nil,
    List.mem_singleton, or_assoc]

theorem mem_present_both {path language l : String} :
    l ∈ (linkToMediaSubtitle (record item path language) path language).present ↔
      l ∈ item.present ∨ l = language := by
  rw [mem_present_link (mem_present_record.2 (.inr rfl)), mem_present_record]

/-- A download leaves the item as it is, or with the candidate's language added. -/
theorem downloadCandidate_spec (item : Item) (c : Candidate) (outcome : Outcome) :
    (downloadCandidate item c outcome).2 =
        (if throws c outcome then none else some (isInstalled outcome)) ∧
      ∀ l, l ∈ (downloadCandidate item c outcome).1.present ↔
        l ∈ item.present ∨ isRecorded c outcome = true ∧ l = c.language := by
  unfold downloadCandidate
  by_cases hreject : c.scoreTier = .reject
  · rw [if_pos hreject]
    simp [throws, isRecorded, hreject]
  · rw [if_neg hreject]
    cases outcome with
    | notFound => simp [throws, isRecorded]
    | failed told => cases told <;> simp [throws, isRecorded, isInstalled, hreject]
    | recorded path linked told =>
      constructor
      · cases told <;> simp [throws, isInstalled, hreject]
      · cases linked <;> simp [isRecorded, hreject, mem_present_record, mem_present_both]
    | installed path => simp [throws, isRecorded, isInstalled, hreject, mem_present_both]

section Records

variable {lang : String}

theorem records_none (h : best rt scan lang = none) :
    records rt scan (lang :: missing) = records rt scan missing := by
  simp [records, reached, h]

theorem records_some {c : Candidate} (h : best rt scan lang = some c) :
    records rt scan (lang :: missing) =
      (if isRecorded c (scan.download lang) then [(lang, c)] else []) ++
        if throws c (scan.download lang) then [] else records rt scan missing := by
  rw [records, reached, List.filterMap_cons, h, Option.any_some]
  cases hrecorded : isRecorded c (scan.download lang) <;> cases hthrows : throws c (scan.download lang) <;>
    simp [Option.filter, records, hrecorded]

end Records

theorem isRecorded_of_isInstalled {c : Candidate} {outcome : Outcome} (hthrows : throws c outcome = false)
    (h : isInstalled outcome = true) : isRecorded c outcome = true := by
  cases outcome with
  | installed path => simpa [throws, isRecorded] using hthrows
  | _ => cases h

theorem not_isInstalled_of_throws {c : Candidate} {outcome : Outcome} (hthrows : throws c outcome = true)
    (h : isRecorded c outcome = true) : isInstalled outcome = false := by
  cases outcome with
  | installed path => simp_all [throws, isRecorded]
  | _ => rfl

theorem autoFetch_spec (item : Item) :
    (∀ l, l ∈ (autoFetch rt scan item missing).1.present ↔
      l ∈ item.present ∨ ∃ p ∈ records rt scan missing, l = p.2.language) ∧
    (autoFetch rt scan item missing).2 =
      (records rt scan missing).filter fun p => isInstalled (scan.download p.1) := by
  induction missing generalizing item with
  | nil => simp [autoFetch, records, reached]
  | cons lang missing ih =>
    unfold autoFetch
    cases hbest : best rt scan lang with
    | none =>
      rw [records_none hbest]
      exact ih item
    | some c =>
      obtain ⟨hresult, hpresent⟩ := downloadCandidate_spec item c (scan.download lang)
      rw [records_some hbest]
      dsimp only
      cases hdown : downloadCandidate item c (scan.download lang) with
      | mk item' result =>
        rw [hdown] at hresult hpresent
        dsimp only at hresult hpresent ⊢
        cases hthrows : throws c (scan.download lang) with
        | true =>
          rw [hthrows, if_pos rfl] at hresult
          subst hresult
          rw [if_pos rfl, List.append_nil]
          dsimp only
          refine ⟨fun l => ?_, ?_⟩
          · rw [hpresent]
            split_ifs with hrecorded <;> simp [hrecorded]
          · split_ifs with hrecorded
            · simp [not_isInstalled_of_throws hthrows hrecorded]
            · rfl
        | false =>
          rw [hthrows, if_neg Bool.false_ne_true] at hresult
          subst hresult
          obtain ⟨hrest, hinstalled⟩ := ih item'
          rw [if_neg Bool.false_ne_true]
          dsimp only
          refine ⟨fun l => ?_, ?_⟩
          · rw [hrest, hpresent]
            split_ifs with hrecorded <;> simp [hrecorded, or_assoc]
          · rw [hinstalled, List.filter_append]
            cases hi : isInstalled (scan.download lang) with
            | false => cases isRecorded c (scan.download lang) <;> simp [hi]
            | true => simp [hi, isRecorded_of_isInstalled hthrows hi]

/-! ### Convergence -/

variable (rt) (scan item)

/-- What a scan installs is not reported missing by the next one. -/
def Settles : Prop :=
  ∀ p ∈ (scanItem rt scan item).2, p.1 ∉ reported rt scan (scanItem rt scan item).1

/-- A language for which the scan installs something is not the undetermined one, and some
candidate the scan puts on record is tagged with it. -/
def Spelled : Prop :=
  scan.autoDownload = true → ∀ p ∈ records rt scan (reported rt scan item),
    isInstalled (scan.download p.1) = true → searched rt p.1 ≠ undetermined ∧
      ∃ q ∈ records rt scan (reported rt scan item), baseLang rt q.2.language = searched rt p.1

variable {rt scan item}

theorem reached_sublist (missing : List String) : (reached rt scan missing).Sublist missing := by
  induction missing with
  | nil => exact .slnil
  | cons lang missing ih =>
    rw [reached]
    split_ifs
    · exact (List.nil_sublist missing).cons_cons lang
    · exact ih.cons_cons lang

theorem mem_of_mem_records {p : String × Candidate} (h : p ∈ records rt scan missing) :
    p.1 ∈ missing := by
  obtain ⟨lang, hlang, hp⟩ := List.mem_filterMap.1 h
  obtain ⟨c, -, rfl⟩ := Option.map_eq_some_iff.1 hp
  exact (reached_sublist missing).subset hlang

/-- A language that was missing is reported again unless its tag has turned up. -/
theorem mem_reported_iff {item' : Item} {lang : String} (h : lang ∈ reported rt scan item) :
    lang ∈ reported rt scan item' ↔ searched rt lang ∉ presentLangs rt item'.present :=
  ⟨fun h' => (searched_of_mem h').2.2, mem_missingFrom h⟩

theorem searched_mem_iff {lang : String} (h : lang ∈ reported rt scan item) :
    searched rt lang ∈ presentLangs rt (autoFetch rt scan item missing).1.present ↔
      searched rt lang ≠ undetermined ∧
        ∃ q ∈ records rt scan missing, baseLang rt q.2.language = searched rt lang := by
  obtain ⟨hne, -, hnot⟩ := searched_of_mem h
  rw [mem_presentLangs, List.mem_map] at hnot ⊢
  constructor
  · rintro ⟨⟨l, hl, hbase⟩, -, hund⟩
    refine ⟨hund, ?_⟩
    rcases (autoFetch_spec item).1 l |>.1 hl with hl | ⟨q, hq, rfl⟩
    · exact absurd ⟨⟨l, hl, hbase⟩, hne, hund⟩ hnot
    · exact ⟨q, hq, hbase⟩
  · rintro ⟨hund, q, hq, hbase⟩
    exact ⟨⟨_, (autoFetch_spec item).1 _ |>.2 (.inr ⟨q, hq, rfl⟩), hbase⟩, hne, hund⟩

theorem settles_iff_spelled : Settles rt scan item ↔ Spelled rt scan item := by
  unfold Settles Spelled scanItem
  split_ifs with hauto
  · rw [(autoFetch_spec item).2]
    simp only [List.mem_filter, hauto, true_implies, and_imp]
    refine forall₃_congr fun p hp hinstalled => ?_
    have hreported := mem_of_mem_records hp
    rw [mem_reported_iff hreported, not_not, searched_mem_iff hreported]
  · simp [hauto]

/-! ### Repeated scans -/

variable (rt)

/-- The scans of one item, one after the other, and all they install. -/
def runScans : List Scan → Item → Item × List (String × Candidate)
  | [], item => (item, [])
  | scan :: scans, item =>
    let first := scanItem rt scan item
    let rest := runScans scans first.1
    (rest.1, first.2 ++ rest.2)

def SpelledThroughout : List Scan → Item → Prop
  | [], _ => True
  | scan :: scans, item => Spelled rt scan item ∧ SpelledThroughout scans (scanItem rt scan item).1

/-- How often something is installed for a language. -/
def installsFor (tag : List Char) (installs : List (String × Candidate)) : ℕ :=
  (installs.map fun p => searched rt p.1).count tag

variable {rt} {tag : List Char} {scans : List Scan}

theorem presentLangs_subset (h : tag ∈ presentLangs rt item.present) :
    tag ∈ presentLangs rt (scanItem rt scan item).1.present := by
  unfold scanItem
  split_ifs
  · rw [mem_presentLangs, List.mem_map] at h ⊢
    obtain ⟨⟨l, hl, hbase⟩, hrest⟩ := h
    exact ⟨⟨l, (autoFetch_spec item).1 l |>.2 (.inl hl), hbase⟩, hrest⟩
  · exact h

theorem mem_reported_of_mem_installs {p : String × Candidate} (h : p ∈ (scanItem rt scan item).2) :
    p.1 ∈ reported rt scan item := by
  unfold scanItem at h
  split_ifs at h
  · rw [(autoFetch_spec item).2] at h
    exact mem_of_mem_records (List.mem_filter.1 h).1
  · cases h

theorem installsFor_cons : installsFor rt tag (runScans rt (scan :: scans) item).2 =
    installsFor rt tag (scanItem rt scan item).2 +
      installsFor rt tag (runScans rt scans (scanItem rt scan item).1).2 := by
  simp only [installsFor, runScans, List.map_append, List.count_append]

/-- For a language that is there nothing is installed. -/
theorem installsFor_run_eq_zero (h : tag ∈ presentLangs rt item.present) :
    installsFor rt tag (runScans rt scans item).2 = 0 := by
  induction scans generalizing item with
  | nil => rfl
  | cons scan scans ih =>
    rw [installsFor_cons, ih (presentLangs_subset h), Nat.add_zero, installsFor, List.count_eq_zero]
    intro hmem
    obtain ⟨p, hp, rfl⟩ := List.mem_map.1 hmem
    exact (searched_of_mem (mem_reported_of_mem_installs hp)).2.2 h

theorem installsFor_scan_le_one : installsFor rt tag (scanItem rt scan item).2 ≤ 1 := by
  unfold scanItem
  split_ifs
  · rw [(autoFetch_spec item).2]
    have hpair : (records rt scan (reported rt scan item)).Pairwise fun p q =>
        searched rt p.1 ≠ searched rt q.1 := by
      have hmissing : (reported rt scan item).Pairwise fun lang lang' =>
          searched rt lang ≠ searched rt lang' := List.pairwise_map.1 nodup_missingFrom
      refine (hmissing.sublist (reached_sublist _)).filterMap _ ?_
      intro lang lang' hne p hp q hq
      obtain ⟨c, -, rfl⟩ := Option.map_eq_some_iff.1 hp
      obtain ⟨c', -, rfl⟩ := Option.map_eq_some_iff.1 hq
      exact hne
    have hnodup := List.pairwise_map.2 (hpair.filter fun p => isInstalled (scan.download p.1))
    exact List.nodup_iff_count_le_one.1 hnodup tag
  · exact Nat.zero_le _

theorem mem_presentLangs_of_installs (h : Spelled rt scan item)
    (hpos : installsFor rt tag (scanItem rt scan item).2 ≠ 0) :
    tag ∈ presentLangs rt (scanItem rt scan item).1.present := by
  obtain ⟨p, hp, rfl⟩ := List.mem_map.1 (List.count_pos_iff.1 (Nat.pos_of_ne_zero hpos))
  have hsettles := settles_iff_spelled.2 h p hp
  rwa [mem_reported_iff (mem_reported_of_mem_installs hp), not_not] at hsettles

theorem installsFor_run_le_one (h : SpelledThroughout rt scans item) :
    installsFor rt tag (runScans rt scans item).2 ≤ 1 := by
  induction scans generalizing item with
  | nil => exact Nat.zero_le _
  | cons scan scans ih =>
    obtain ⟨hfirst, hrest⟩ := h
    rw [installsFor_cons]
    by_cases hzero : installsFor rt tag (scanItem rt scan item).2 = 0
    · rw [hzero, Nat.zero_add]
      exact ih hrest
    · rw [installsFor_run_eq_zero (mem_presentLangs_of_installs hfirst hzero)]
      exact installsFor_scan_le_one

/-- A scan settles the languages it installs for exactly when the candidates are tagged with them,
and scans that do install at most one subtitle for a language. -/
theorem scans_converge (rt : Runtime) :
    (∀ scan item, Settles rt scan item ↔ Spelled rt scan item) ∧
    ∀ scans item, SpelledThroughout rt scans item →
      ∀ lang, installsFor rt (searched rt lang) (runScans rt scans item).2 ≤ 1 :=
  ⟨fun _ _ => settles_iff_spelled, fun _ _ h _ => installsFor_run_le_one h⟩

/-- English is wanted, and the provider tags its subtitle with three letters. -/
def tagged (tag : String) : Scan where
  policy := ⟨["en"], [], 50⟩
  autoDownload := true
  candidates := [⟨"c1", tag, 95, .auto⟩]
  download := fun _ => .installed "/movies/Film.en.srt"

def unsubtitled : Item := ⟨[], []⟩

theorem scans_converge_regional :
    SpelledThroughout .ascii [tagged "en-US", tagged "en-US"] unsubtitled ∧
      installsFor .ascii (searched .ascii "en")
        (runScans .ascii [tagged "en-US", tagged "en-US"] unsubtitled).2 ≤ 1 := by
  have h : SpelledThroughout .ascii [tagged "en-US", tagged "en-US"] unsubtitled := by
    refine ⟨fun _ => ?_, fun _ => ?_, trivial⟩ <;> decide +kernel
  exact ⟨h, (scans_converge .ascii).2 _ _ h "en"⟩

/-- English is reported missing again, and installed again. -/
theorem scans_diverge : ¬ Settles .ascii (tagged "eng") unsubtitled ∧
    installsFor .ascii (searched .ascii "en")
      (runScans .ascii [tagged "eng", tagged "eng"] unsubtitled).2 = 2 := by
  refine ⟨fun h => ?_, by decide +kernel⟩
  exact absurd (h ("en", ⟨"c1", "eng", 95, .auto⟩) (by decide +kernel)) (by decide +kernel)

end UltraTorrent.Subtitles.MissingScan
