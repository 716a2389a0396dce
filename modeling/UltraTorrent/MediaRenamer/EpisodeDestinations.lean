import UltraTorrent.MediaRenamer.CleanedBatches
import UltraTorrent.MediaRenamer.EpisodeTemplates

/-! Where episodes of one show go. The numbers in a name are the ones of the file's own name only where
that has a number; an air date is not one, and the batch's numbers come before one without a season. -/
namespace UltraTorrent.MediaRenamer.EpisodeDestinations

open Library Library.CanonicalPath Library.EcmaScript Library.NodePath Library.RegExp
open CleanedBatches EpisodeSegment EpisodeTemplates FileClassification Planner RenderTemplate TorrentName

/-! ### Season zero -/

theorem takes_seasonZero : Takes (· ≠ '/') seasonZero := by
  have hword : Takes (· ≠ '/') (word "season") := takes_word fun c hc => by
    rintro rfl
    exact absurd hc (by decide)
  have hone : ∀ chars : String, '/' ∉ chars.toList → Takes (· ≠ '/') (oneOf chars) := fun chars hno =>
    takes_one fun c hc => by
      rintro rfl
      exact hno (List.contains_iff_mem.1 hc)
  refine takes_seq ?_
  simp only [List.forall_mem_cons, List.not_mem_nil, IsEmpty.forall_iff, implies_true, and_true]
  exact ⟨hword, hone " " (by decide), takes_plus (hone "0" (by decide)), takes_boundary⟩

theorem foundAt_seasonZero (rest : List Char) (index : ℕ) (before : Option Char) :
    (foundAt seasonZero index before ("Season 0".toList ++ '/' :: rest)).isSome = true := by
  have htext : "Season 0".toList = ['S', 'e', 'a', 's', 'o', 'n', ' ', '0'] := by decide
  have hletters : "season".toList = ['s', 'e', 'a', 's', 'o', 'n'] := by decide
  have hboundary : RegExp.isWord '0' ≠ RegExp.isWord '/' := by decide
  simp [foundAt, seasonZero, htext, word, hletters, seq, oneOf, one, plus, RegExp.star, upTo, boundary,
    hboundary]

theorem endsIn_replaceFirst (above seg : List Char) (f : Found → List Char) :
    EndsIn (RegExp.replaceFirst seasonZero f (above ++ ("Season 0".toList ++ '/' :: seg))) seg := by
  obtain ⟨found, skipped, hexec, htext, -, hlength, hfree⟩ :=
    @execFrom_spec _ _ above ("Season 0".toList ++ '/' :: seg) 0 none takes_seasonZero
      fun i b => foundAt_seasonZero seg i b
  have hexec' : exec seasonZero (above ++ ("Season 0".toList ++ '/' :: seg)) = some found := hexec
  rw [RegExp.replaceFirst, hexec']
  dsimp only
  have hrest : ∃ mid, found.rest = mid ++ '/' :: seg := by
    rw [← List.append_assoc, ← List.append_assoc] at htext
    rcases List.append_eq_append_iff.1 htext with ⟨mid, hmid, hrest⟩ | ⟨mid, hmid, hrest⟩
    · cases mid with
      | nil => exact ⟨[], hrest.symm⟩
      | cons c mid =>
        -- What is matched would go past the slash.
        rw [List.cons_append, List.cons.injEq] at hrest
        have hsuffix : c :: mid <:+ found.text := by
          refine List.suffix_of_suffix_length_le ⟨_, hmid.symm⟩ ⟨skipped, rfl⟩ ?_
          have hlengths := congrArg List.length hmid
          simp only [List.length_append] at hlengths
          omega
        exact absurd hrest.1.symm (hfree c (hsuffix.subset List.mem_cons_self))
    · exact ⟨mid, hrest⟩
  obtain ⟨mid, hmid⟩ := hrest
  rw [hmid, ← List.append_assoc]
  exact .inr ⟨_, rfl⟩

/-! ### The last segment of a destination -/

variable {rt : Runtime} {ctx : RenameContext} {f g : MediaFileInput} {rel : String} {seg : List Char}
  {kind : MediaKind}

theorem component_resolveDestination (h : EndsIn rel.toList seg) (hname : Name seg) (source : String)
    (kind : MediaKind) : component (resolveDestination rt ctx source rel kind).toList = seg := by
  rw [resolveDestination]
  split_ifs with hplace
  · refine component_join ?_ hname
    obtain ⟨before, hbefore⟩ := h.splitOn hname.no_slash
    rw [hbefore]
    split_ifs with hparts
    · rw [String.toList_ofList]
      cases before with
      | nil => simp at hparts
      | cons first before =>
        rw [List.cons_append, List.drop_succ_cons, List.drop_zero]
        exact endsIn_intercalate before seg
    · exact h
  · exact component_join h hname

/-! ### What a file is filled in with -/

/-- A built-in template is used. -/
def UsesPreset (ctx : RenameContext) : Prop :=
  ctx.template.filter (fun template => WhiteSpace.trim template ≠ "") = none

instance (ctx : RenameContext) : Decidable (UsesPreset ctx) := inferInstanceAs (Decidable (_ = _))

def ownName (f : MediaFileInput) : ParsedTorrentMeta := parseTorrentName (basename f.path)

/-- The season and the episode that a file is given: its own name's, or else those of the batch's name. -/
def numbersOf (ctx : RenameContext) (f : MediaFileInput) : ℕ × Option ℕ :=
  (((ownName f).season.or (sourceParsed ctx).season).getD 1,
    ((ownName f).episode.or (sourceParsed ctx).episode).or
      ((ownName f).absoluteEpisode.or (sourceParsed ctx).absoluteEpisode))

def seriesOf (rt : Runtime) (ctx : RenameContext) (f : MediaFileInput) : String :=
  stripProviderIdTag ((((fileMeta rt ctx f).bind (·.seriesTitle)).or (parsedOf ctx f).title).getD "Unknown")

def startOf (rt : Runtime) (ctx : RenameContext) (f : MediaFileInput) : List Char :=
  nameStart ctx.preset (seriesOf rt ctx f) (numbersOf ctx f).1 ((numbersOf ctx f).2.getD 0)

theorem parsedOf_cases (ctx : RenameContext) (f : MediaFileInput) :
    parsedOf ctx f = sourceParsed ctx ∧ (ownName f).season = none ∧ (ownName f).episode = none ∧
        (ownName f).absoluteEpisode = none ∨
      ¬((ownName f).season = none ∧ (ownName f).episode = none ∧ (ownName f).absoluteEpisode = none) ∧
        (parsedOf ctx f).contentType = (ownName f).contentType ∧
        (parsedOf ctx f).season = (ownName f).season.or (sourceParsed ctx).season ∧
        (parsedOf ctx f).episode = (ownName f).episode.or (sourceParsed ctx).episode ∧
        (parsedOf ctx f).absoluteEpisode =
          (ownName f).absoluteEpisode.or (sourceParsed ctx).absoluteEpisode := by
  unfold parsedOf identifyFile
  rw [ownName]
  generalize parseTorrentName (basename f.path) = own
  generalize sourceParsed ctx = batch
  dsimp only
  split_ifs with hnone
  · exact .inl ⟨rfl, hnone⟩
  · exact .inr ⟨hnone, rfl, rfl, rfl, rfl⟩

theorem numbersOf_eq (ctx : RenameContext) (f : MediaFileInput) :
    numbersOf ctx f = ((parsedOf ctx f).season.getD 1,
      (parsedOf ctx f).episode.or (parsedOf ctx f).absoluteEpisode) := by
  rw [numbersOf]
  rcases parsedOf_cases ctx f with ⟨hbatch, hseason, hepisode, habsolute⟩ | ⟨-, -, hseason, hepisode, habsolute⟩
  · rw [hbatch, hseason, hepisode, habsolute, Option.none_or, Option.none_or, Option.none_or]
  · rw [hseason, hepisode, habsolute]

/-- A file that is given a number is an episode. -/
theorem fileKind_of_number (h : (numbersOf ctx f).2.isSome = true) :
    fileKind ctx f = .tv ∨ fileKind ctx f = .anime := by
  have hcontent : (parsedOf ctx f).contentType = .tvEpisode ∨ (parsedOf ctx f).contentType = .daily ∨
      (parsedOf ctx f).contentType = .animeEpisode := by
    rcases parsedOf_cases ctx f with ⟨hbatch, -⟩ | ⟨hown, hcontent, -⟩
    · rw [numbersOf_eq, hbatch] at h
      rw [hbatch]
      refine contentType_of_episode fun hnone => ?_
      rw [sourceParsed, hnone.2.1, hnone.2.2] at h
      cases h
    · rw [hcontent]
      exact contentType_of_episode hown
  rw [fileKind, kindFromParsed]
  rcases hcontent with hcontent | hcontent | hcontent <;> rw [hcontent] <;> simp

theorem fileKind_ne_general (h : (numbersOf ctx f).2.isSome = true) : fileKind ctx f ≠ .general := by
  rcases fileKind_of_number h with hkind | hkind <;> rw [hkind] <;> decide

theorem kind_eq_fileKind (hvideo : extOf rt f.path ∈ videoExt) : (fileClass rt ctx f).kind = fileKind ctx f := by
  have hno := List.all_eq_true.1 CleanedBatches.no_audio_of_video _ hvideo
  have hcontains : videoExt.contains (extOf rt f.path) = true := List.contains_iff_mem.2 hvideo
  simp only [Bool.and_eq_true, Bool.not_eq_true'] at hno
  simp only [fileClass, classifyFile, hno.1, hno.2, hcontains]
  simp

theorem templateForKind_eq (h : UsesPreset ctx) (hkind : kind = .tv ∨ kind = .anime) :
    templateForKind ctx.preset kind ctx.template = episodeTemplate ctx.preset (decide (kind = .anime)) := by
  unfold templateForKind
  rw [h]
  rcases hkind with rfl | rfl <;> rfl

theorem ofEpisode_buildTokens {parsed : ParsedTorrentMeta} {ext : String} {fileMeta : Option EpisodeMeta}
    {range : Option (ℕ × ℕ)} {episode : ℕ} (hkind : kind = .tv ∨ kind = .anime)
    (hepisode : parsed.episode.or parsed.absoluteEpisode = some episode) :
    OfEpisode (buildTokens parsed kind ext fileMeta range)
      (stripProviderIdTag (((fileMeta.bind (·.seriesTitle)).or parsed.title).getD "Unknown"))
      (parsed.season.getD 1) episode where
  series := rfl
  season := by
    simp only [buildTokens, if_pos hkind]
    cases parsed.season <;> rfl
  episode := by
    simp only [buildTokens, hepisode]
    rfl
  last := by
    intro text htext
    simp only [buildTokens, Option.mem_def] at htext
    obtain ⟨n, -, rfl⟩ := Option.map_eq_some_iff.1 htext
    have hdigits : (toString n).toList = Nat.toDigits 10 n := by simp
    intro hslash
    rw [hdigits] at hslash
    exact absurd (Nat.isDigit_of_mem_toDigits (by decide) (by decide) hslash) (by decide)

/-! ### Where a numbered episode goes -/

theorem intercalate_season (above : List (List Char)) (folder seg : List Char) :
    ∃ before, ['/'].intercalate (above ++ [folder] ++ [seg]) = before ++ (folder ++ '/' :: seg) := by
  have hlast : ['/'].intercalate ([folder] ++ [seg]) = folder ++ '/' :: seg := by
    simp [List.intercalate]
  rw [List.append_assoc]
  induction above with
  | nil => exact ⟨[], hlast⟩
  | cons part above ih =>
    obtain ⟨before, hbefore⟩ := ih
    refine ⟨part ++ '/' :: before, ?_⟩
    rw [List.cons_append, List.intercalate_cons_of_ne_nil (by simp), hbefore]
    simp

theorem component_destinationOf (hpreset : UsesPreset ctx) (hvideo : extOf rt f.path ∈ videoExt)
    (hnumber : (numbersOf ctx f).2.isSome = true) :
    ∃ rest, Apart rest ∧ component (destinationOf rt ctx f).toList = startOf rt ctx f ++ rest := by
  have hkind := fileKind_of_number hnumber
  have hclass : (fileClass rt ctx f).kind = fileKind ctx f := kind_eq_fileKind hvideo
  obtain ⟨episode, hepisode⟩ := Option.isSome_iff_exists.1 hnumber
  have htokens : OfEpisode (buildTokens (parsedOf ctx f) (fileKind ctx f) (fileClass rt ctx f).ext
      (fileMeta rt ctx f) (rangeOf ctx f)) (seriesOf rt ctx f) (numbersOf ctx f).1 episode := by
    rw [numbersOf_eq] at hepisode ⊢
    rw [seriesOf]
    generalize parsedOf ctx f = parsed at hepisode ⊢
    exact ofEpisode_buildTokens hkind hepisode
  have hstart : startOf rt ctx f = nameStart ctx.preset (seriesOf rt ctx f) (numbersOf ctx f).1 episode := by
    rw [startOf, hepisode, Option.getD_some]
  obtain ⟨folders, rest, hrest, hsegments, hzero⟩ :=
    renderedSegments_episode (decide (fileKind ctx f = .anime)) htokens
  rw [← hstart] at hsegments
  refine ⟨rest, hrest, ?_⟩
  have hrel : (renderedRel rt ctx f).toList = ['/'].intercalate (folders ++ [startOf rt ctx f ++ rest]) := by
    rw [renderedRel, templateForKind_eq hpreset hkind, renderTemplate, hclass, hsegments, String.toList_ofList]
  have hname : Name (startOf rt ctx f ++ rest) := by
    have hmem := List.mem_append_right folders (List.mem_singleton_self (startOf rt ctx f ++ rest))
    rw [← hsegments] at hmem
    have hsafe := RenderedSegments.safe_renderedSegments hmem
    exact ⟨hsafe.ne_nil, fun hslash => absurd (hsafe.clean '/' hslash).2 (by decide), hsafe.ne_dot,
      hsafe.ne_dots⟩
  refine component_resolveDestination ?_ hname _ _
  unfold specialsRel
  dsimp only
  split_ifs with hspecial
  · have hseason : (numbersOf ctx f).1 = 0 := by
      rw [numbersOf_eq, hspecial.2, Option.getD_some]
    obtain ⟨above, rfl⟩ := hzero hseason
    obtain ⟨before, hbefore⟩ := intercalate_season above "Season 0".toList (startOf rt ctx f ++ rest)
    rw [String.toList_ofList, hrel, hbefore]
    exact endsIn_replaceFirst before _ _
  · rw [hrel]
    exact endsIn_intercalate folders _

/-! ### What does not show in a name -/

/-- Two files that nothing tells apart but a number without a season or an air date. -/
structure Alike (rt : Runtime) (ctx : RenameContext) (f g : MediaFileInput) : Prop where
  ext : extOf rt f.path = extOf rt g.path
  absolute : isAbsolute f.path = isAbsolute g.path
  folder : showFolderRoot rt f.path ctx.libraryPath = showFolderRoot rt g.path ctx.libraryPath
  range : rangeOf ctx f = rangeOf ctx g
  known : ∃ number date, parsedOf ctx f = { parsedOf ctx g with absoluteEpisode := number, airDate := date }

theorem Alike.fileKind_eq (h : Alike rt ctx f g) : fileKind ctx f = fileKind ctx g := by
  obtain ⟨number, date, hknown⟩ := h.known
  rw [fileKind, fileKind, hknown]
  generalize parsedOf ctx g = parsed
  rfl

theorem buildTokens_congr {parsed : ParsedTorrentMeta} {number : Option ℕ} {date : Option String} {ext : String}
    {fileMeta : Option EpisodeMeta} {range : Option (ℕ × ℕ)}
    (h : parsed.episode.or number = parsed.episode.or parsed.absoluteEpisode) :
    buildTokens { parsed with absoluteEpisode := number, airDate := date } kind ext fileMeta range =
      buildTokens parsed kind ext fileMeta range := by
  unfold buildTokens
  dsimp only
  rw [h]

/-- A number or a date that the name of the batch overrides leaves no trace. -/
theorem destinationOf_eq (h : Alike rt ctx f g) (hnumbers : numbersOf ctx f = numbersOf ctx g) :
    destinationOf rt ctx f = destinationOf rt ctx g := by
  obtain ⟨number, date, hknown⟩ := h.known
  have hepisode : (parsedOf ctx g).episode.or number =
      (parsedOf ctx g).episode.or (parsedOf ctx g).absoluteEpisode := by
    rw [numbersOf_eq, numbersOf_eq, hknown] at hnumbers
    generalize parsedOf ctx g = parsed at hnumbers ⊢
    exact (Prod.mk.inj hnumbers).2
  have hkind : fileKind ctx f = fileKind ctx g := h.fileKind_eq
  have hclass : (fileClass rt ctx f).kind = (fileClass rt ctx g).kind := by
    simp only [fileClass, classifyFile, h.ext, hkind]
  have hext : (fileClass rt ctx f).ext = (fileClass rt ctx g).ext := h.ext
  have hmeta : fileMeta rt ctx f = fileMeta rt ctx g := by
    unfold fileMeta
    rw [hknown]
  have hrel : renderedRel rt ctx f = renderedRel rt ctx g := by
    rw [renderedRel, renderedRel, hkind, hclass, hext, hmeta, h.range, hknown, buildTokens_congr hepisode]
  have hspecials : specialsRel rt ctx f = specialsRel rt ctx g := by
    rw [specialsRel, specialsRel, hclass, hrel, hknown]
  rw [destinationOf, destinationOf, hspecials, hclass, resolveDestination, resolveDestination, h.absolute,
    h.folder]

theorem Alike.of_path (hpath : g.path = f.path) : Alike rt ctx g f where
  ext := by rw [hpath]
  absolute := by rw [hpath]
  folder := by rw [hpath]
  range := by rw [rangeOf, rangeOf, hpath]
  known := ⟨(parsedOf ctx f).absoluteEpisode, (parsedOf ctx f).airDate, by rw [parsedOf, hpath, ← parsedOf]⟩

theorem destinationOf_congr (hpath : g.path = f.path) : destinationOf rt ctx g = destinationOf rt ctx f :=
  destinationOf_eq (.of_path hpath) (by rw [numbersOf, numbersOf, ownName, ownName, hpath])

/-! ### The place of an episode in the plan -/

variable {destination : String} {item : PlannedItem}

/-- The plan puts the file there, and not among the extras. -/
def Planned (rt : Runtime) (ctx : RenameContext) (f : MediaFileInput) (destination : String) : Prop :=
  ∃ item ∈ (buildRenamePlan rt ctx).items, item.source = f.path ∧ item.isExtra = false ∧
    item.destination = some destination

theorem destination_primaryItem (h : item ∈ primaryItem rt ctx f) (hextra : item.isExtra = false)
    (hdestination : item.destination = some destination) : destination = destinationOf rt ctx f := by
  unfold primaryItem primaryOf at h
  dsimp only at h
  split_ifs at h <;> simp only [Option.mem_def, Option.some.injEq, reduceCtorEq] at h <;> subst h
  all_goals simp only [skipItem, Option.some.injEq, reduceCtorEq] at hextra hdestination
  all_goals exact hdestination.symm

/-- Only the first pass has a place for a video that is taken for something. -/
theorem planned_eq (hvideo : extOf rt f.path ∈ videoExt) (hkind : fileKind ctx f ≠ .general)
    (h : Planned rt ctx f destination) : destination = destinationOf rt ctx f := by
  obtain ⟨placed, hmarked, hsource, hextra, hdestination⟩ := h
  obtain ⟨item, hitem, rfl⟩ := List.mem_map.1 hmarked
  change item.source = f.path at hsource
  change item.isExtra = false at hextra
  change item.destination = some destination at hdestination
  rcases List.mem_append.1 hitem with hbefore | hsidecar
  · rcases List.mem_append.1 hbefore with hfirst | hsubtitle
    · rcases List.mem_append.1 hfirst with hdeleted | hprimary
      · obtain ⟨g, -, hg⟩ := List.mem_filterMap.1 hdeleted
        obtain ⟨reason, -, rfl⟩ := Option.map_eq_some_iff.1 hg
        cases hdestination
      · rw [items_firstPass] at hprimary
        obtain ⟨g, -, hg⟩ := List.mem_filterMap.1 hprimary
        have hpath : g.path = f.path := (follows_primaryItem hg).1.symm.trans hsource
        rw [← destinationOf_congr hpath]
        exact destination_primaryItem hg hextra hdestination
    · obtain ⟨g, -, hg⟩ := List.mem_filterMap.1 hsubtitle
      have hpath : g.path = f.path := (follows_subtitleItem hg).1.symm.trans hsource
      have hsome := Option.isSome_of_mem hg
      rw [isSome_subtitleItem, hpath, List.contains_iff_mem] at hsome
      exact absurd hvideo (not_video_of_subtitle hsome)
  · obtain ⟨g, hg, rfl⟩ := List.mem_map.1 hsidecar
    have hpath : g.path = f.path := follows_sidecarItem.1.symm.trans hsource
    obtain ⟨hkept, hlater⟩ := List.mem_filter.1 hg
    obtain ⟨hgmem, hgkept⟩ := List.mem_filter.1 hkept
    have hprimary : (primaryItem rt ctx g).isSome = true := by
      rw [Option.isSome_iff_ne_none, Ne, primaryItem_eq_none, hpath, kind_congr hpath, kind_eq_fileKind hvideo]
      exact fun hnone => hnone.elim (fun hsubtitle => not_video_of_subtitle hsubtitle hvideo) fun hgeneral =>
        hkind hgeneral.2
    have hplanned := (mem_plannedBefore rt ctx (of_decide_eq_true hgkept)).2 ⟨g, hgmem, rfl, .inl hprimary⟩
    exact absurd hplanned (of_decide_eq_true hlater).1

theorem planned_destinationOf (hf : f ∈ ctx.files) (hcleanup : ctx.cleanup = none)
    (hvideo : extOf rt f.path ∈ videoExt) (hkind : fileKind ctx f ≠ .general)
    (hsample : (fileClass rt ctx f).isSample = false) (hextra : (fileClass rt ctx f).isExtra = false)
    (hsafe : isRenderedPathSafe rt (renderedRel rt ctx f) (fileClass rt ctx f).ext = true) :
    Planned rt ctx f (destinationOf rt ctx f) := by
  have hkept : f ∈ keptFiles rt ctx := by
    have hdelete : toDelete rt ctx = [] := by
      simp [toDelete, deletions, deletion, cleanupActive, hcleanup]
    rw [keptFiles, hdelete]
    simpa using hf
  have hsubtitle : (fileClass rt ctx f).isSubtitle = false := by
    by_contra hsubtitle
    rw [Bool.not_eq_false] at hsubtitle
    exact not_video_of_subtitle (List.contains_iff_mem.1 hsubtitle) hvideo
  have haudio : (fileClass rt ctx f).ext ∉ audioExt := by
    have hno := List.all_eq_true.1 no_audio_of_video _ hvideo
    rw [Bool.and_eq_true, Bool.not_eq_true', List.contains_eq_mem, decide_eq_false_iff_not] at hno
    exact hno.1
  have hgeneral : (fileClass rt ctx f).kind ≠ .general := kind_eq_fileKind hvideo ▸ hkind
  have hprimary : ∃ item ∈ primaryItem rt ctx f, item.isExtra = false ∧
      item.destination = some (destinationOf rt ctx f) := by
    simp [primaryItem, primaryOf, hsubtitle, hsample, haudio, hgeneral, hsafe, hextra]
  obtain ⟨item, hitem, hproper, hdestination⟩ := hprimary
  have hmem : item ∈ (firstPass rt ctx).items := by
    rw [items_firstPass]
    exact List.mem_filterMap.2 ⟨f, hkept, hitem⟩
  have hplanned : item ∈ plannedItems rt ctx :=
    List.mem_append_left _ (List.mem_append_left _ (List.mem_append_right _ hmem))
  exact ⟨marked item, List.mem_map_of_mem hplanned, (follows_primaryItem hitem).1, hproper, hdestination⟩

/-! ### Episodes of one show -/

/-- Both are known, and they differ. -/
def Differ {α : Type} (a b : Option α) : Prop := ∃ x ∈ a, ∃ y ∈ b, x ≠ y

def markerOf (p : ParsedTorrentMeta) : Option (ℕ × ℕ) :=
  p.season.bind fun season => p.episode.map fun episode => (season, episode)

def OtherEpisode (f g : MediaFileInput) : Prop :=
  Differ (markerOf (ownName f)) (markerOf (ownName g)) ∨
    Differ (ownName f).absoluteEpisode (ownName g).absoluteEpisode ∨
    Differ (ownName f).airDate (ownName g).airDate

/-- Different episodes of one show do not go to one place. -/
def Separated (rt : Runtime) (ctx : RenameContext) (f g : MediaFileInput) : Prop :=
  seriesOf rt ctx f = seriesOf rt ctx g → OtherEpisode f g → ∀ destination, Planned rt ctx f destination →
    ¬Planned rt ctx g destination

/-- Both files are given a number, and it is not the same one. -/
structure GivenApart (ctx : RenameContext) (f g : MediaFileInput) : Prop where
  left : (numbersOf ctx f).2.isSome = true
  right : (numbersOf ctx g).2.isSome = true
  differ : numbersOf ctx f ≠ numbersOf ctx g

theorem destinationOf_ne (hpreset : UsesPreset ctx) (hf : extOf rt f.path ∈ videoExt)
    (hg : extOf rt g.path ∈ videoExt) (hseries : seriesOf rt ctx f = seriesOf rt ctx g)
    (h : GivenApart ctx f g) : destinationOf rt ctx f ≠ destinationOf rt ctx g := by
  intro hsame
  obtain ⟨rest, hrest, hcomponent⟩ := component_destinationOf hpreset hf h.left
  obtain ⟨rest', hrest', hcomponent'⟩ := component_destinationOf hpreset hg h.right
  obtain ⟨front, hfront⟩ := nameStart_eq ctx.preset (seriesOf rt ctx f)
  have hname : startOf rt ctx f ++ rest = startOf rt ctx g ++ rest' := by rw [← hcomponent, hsame, hcomponent']
  rw [startOf, startOf, ← hseries, (hfront _ _).1, (hfront _ _).1, List.append_assoc, List.append_assoc] at hname
  have hnumbers := (List.cons.inj (List.append_cancel_left hname)).2
  obtain ⟨hseason, hepisode⟩ := numbers_unique hrest hrest' hnumbers
  refine h.differ (Prod.ext hseason ?_)
  obtain ⟨episode, hsome⟩ := Option.isSome_iff_exists.1 h.left
  obtain ⟨episode', hsome'⟩ := Option.isSome_iff_exists.1 h.right
  rw [hsome, hsome', Option.getD_some, Option.getD_some] at hepisode
  rw [hsome, hsome', hepisode]

/-- Two videos keep apart when each is given a number and the numbers differ; two that are given the
same one, or none, and that nothing else tells apart go to one place. -/
theorem episodes_separated (hpreset : UsesPreset ctx) (hf : extOf rt f.path ∈ videoExt)
    (hg : extOf rt g.path ∈ videoExt) :
    (GivenApart ctx f g → Separated rt ctx f g) ∧
      (Alike rt ctx f g → numbersOf ctx f = numbersOf ctx g → fileKind ctx f ≠ .general →
        ∀ destination destination', Planned rt ctx f destination → Planned rt ctx g destination' →
          destination = destination') := by
  constructor
  · intro h hseries _ destination hplanned hplanned'
    have hleft := planned_eq hf (fileKind_ne_general h.left) hplanned
    have hright := planned_eq hg (fileKind_ne_general h.right) hplanned'
    exact destinationOf_ne hpreset hf hg hseries h (hleft.symm.trans hright)
  · intro h hnumbers hkind destination destination' hplanned hplanned'
    have hkind' : fileKind ctx g ≠ .general := h.fileKind_eq ▸ hkind
    rw [planned_eq hf hkind hplanned, planned_eq hg hkind' hplanned', destinationOf_eq h hnumbers]

/-- A batch of files in the folder of their show. -/
def lateShow (names : List String) : RenameContext where
  sourceName := "Late Show (2015)"
  files := names.map fun name => ⟨"/tv/Late Show (2015)/" ++ name, 900000000⟩
  preset := .plex
  mode := .preview
  libraryPath := "/tv"

theorem lateShow_separated : Separated .ascii (lateShow ["Late.Show.S09E01.mkv", "Late.Show.S09E02.mkv"])
    ⟨"/tv/Late Show (2015)/Late.Show.S09E01.mkv", 900000000⟩
    ⟨"/tv/Late Show (2015)/Late.Show.S09E02.mkv", 900000000⟩ :=
  (episodes_separated (by decide) (by decide +kernel) (by decide +kernel)).1
    ⟨by decide +kernel, by decide +kernel, by decide +kernel⟩

/-- The files of two days go to one place. -/
theorem not_separated_days : ¬∀ (rt : Runtime) (ctx : RenameContext) (f g : MediaFileInput), UsesPreset ctx →
    f ∈ ctx.files → g ∈ ctx.files → extOf rt f.path ∈ videoExt → extOf rt g.path ∈ videoExt →
      Separated rt ctx f g := by
  intro h
  let days := lateShow ["Late.Show.2024.01.02.mkv", "Late.Show.2024.01.03.mkv"]
  let second : MediaFileInput := ⟨"/tv/Late Show (2015)/Late.Show.2024.01.02.mkv", 900000000⟩
  let third : MediaFileInput := ⟨"/tv/Late Show (2015)/Late.Show.2024.01.03.mkv", 900000000⟩
  have hsecond : Planned .ascii days second (destinationOf .ascii days second) :=
    planned_destinationOf (by decide +kernel) rfl (by decide +kernel) (by decide +kernel) (by decide +kernel)
      (by decide +kernel) (by decide +kernel)
  have hthird : Planned .ascii days third (destinationOf .ascii days third) :=
    planned_destinationOf (by decide +kernel) rfl (by decide +kernel) (by decide +kernel) (by decide +kernel)
      (by decide +kernel) (by decide +kernel)
  have halike : Alike .ascii days second third :=
    ⟨by decide +kernel, by decide +kernel, by decide +kernel, by decide +kernel, none, none, by decide +kernel⟩
  rw [← destinationOf_eq halike (by decide +kernel)] at hthird
  refine h .ascii days second third (by decide) (by decide +kernel) (by decide +kernel) (by decide +kernel)
    (by decide +kernel) (by decide +kernel) (.inr (.inr ⟨"2024-01-02", ?_, "2024-01-03", ?_, by decide⟩)) _ hsecond hthird
  · decide +kernel
  · decide +kernel

end UltraTorrent.MediaRenamer.EpisodeDestinations
