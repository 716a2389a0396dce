import UltraTorrent.Library.Passes
import UltraTorrent.MediaRenamer.Planner

/-! What a plan deletes, and that it forgets no file. A subtitle is deleted for the tag that stands
before its extension; with an extension that is not in small letters, the extension is read as the tag. -/
namespace UltraTorrent.MediaRenamer.CleanedBatches

open Library Library.EcmaScript Library.NodePath Library.Passes
open FileClassification Languages Planner TorrentName

/-! ### Tags -/

section Tag

variable {tag front : List Char}

theorem isAlpha_of_toLower {c : Char} (h : c.toLower.isAlpha = true) : c.isAlpha = true := by
  unfold Char.toLower at h
  split_ifs at h with hupper
  · change (decide ('A'.val ≤ c.val ∧ c.val ≤ 'Z'.val) || c.isLower) = true
    rw [Bool.or_eq_true, decide_eq_true_eq]
    exact .inl hupper
  · exact h

theorem dropWhile_append_dot {p : Char → Bool} {dot : Char} (hdot : p dot = false)
    (front rest : List Char) : ∃ between, (front ++ dot :: rest).dropWhile p = between ++ dot :: rest := by
  induction front with
  | nil => exact ⟨[], by simp [hdot]⟩
  | cons c front ih =>
    cases hc : p c with
    | true => simpa [hc] using ih
    | false => exact ⟨c :: front, by simp [hc]⟩

theorem dots_of_langFlag : langFlags.all (fun flag => !flag.toList.tail.contains '.') = true := by decide

theorem langTag_append (hlength : tag.length = 2 ∨ tag.length = 3) (halpha : ∀ c ∈ tag, c.isAlpha = true)
    (hflag : String.ofList (('.' :: tag).map Char.toLower) ∉ langFlags) :
    langTag (front ++ '.' :: tag) = some tag := by
  induction front with
  | nil =>
    have htake : tag.takeWhile Char.isAlpha = tag := List.takeWhile_eq_self_iff.2 halpha
    have hdrop : tag.dropWhile Char.isAlpha = [] := List.dropWhile_eq_nil_iff.2 halpha
    simp [langTag, langTagAt, htake, hdrop, hlength]
  | cons c front ih =>
    have hnone : langTagAt (c :: (front ++ '.' :: tag)) = none := by
      by_cases hc : c = '.'
      · obtain ⟨between, hbetween⟩ :=
          dropWhile_append_dot (show Char.isAlpha '.' = false by decide) front tag
        subst hc
        rw [langTagAt, if_neg]
        rintro ⟨-, hafter⟩
        rw [hbetween, List.contains_iff_mem] at hafter
        rcases hafter with hnil | hmem
        · simp at hnil
        · cases between with
          | nil => exact hflag hmem
          | cons b between =>
            -- A flag has its only dot in front.
            have hno := List.all_eq_true.1 dots_of_langFlag _ hmem
            simp [show Char.toLower '.' = '.' from rfl] at hno
      · unfold langTagAt
        split
        · rename_i heq
          exact absurd (List.cons.inj heq).1 hc
        · rfl
    rw [List.cons_append, langTag, hnone, Option.none_or, ih]

end Tag

variable {rt : Runtime} {ctx : RenameContext} {cleanup : CleanupRules} {f g : MediaFileInput}
  {path : String} {tag text : List Char} {item : PlannedItem} {videos : List VideoDest}

/-! ### What may be deleted -/

/-- Text that lower-cases to ASCII is that text up to the case of its letters; there is another `k`. -/
def LowersLetters (rt : Runtime) : Prop :=
  ∀ s, (∀ c ∈ (rt.toLowerCase s).toList, c.toNat < 128 ∧ c ≠ 'k') →
    s.toList.map Char.toLower = (rt.toLowerCase s).toList

def tagOf (path : String) : Option (List Char) := langTag (basenameWithout path (extname path)).toList

def knownLang (rt : Runtime) (tag : List Char) : Option String :=
  mapGet codeToCode (rt.toLowerCase (WhiteSpace.trim (.ofList tag)))

def Unwanted (rt : Runtime) (cleanup : CleanupRules) (path : String) : Prop :=
  extOf rt path ∈ subtitleExt ∧
    ∃ tag ∈ tagOf path, ∃ lang ∈ knownLang rt tag, lang ∉ keepLangs rt cleanup

def Deletable (rt : Runtime) (cleanup : CleanupRules) (path : String) : Prop :=
  matchesAnyGlob rt (basename path) cleanup.deleteGlobs = true ∨ Unwanted rt cleanup path

/-- A name from which the cleanup reads the language that it says: the extension is in small letters, and
its tag is in the table or on the list. Of another spelling the extension is the tag. -/
def Readable (rt : Runtime) (cleanup : CleanupRules) (path : String) : Prop :=
  if extOf rt path = extname path then
    ∀ tag ∈ tagOf path, (knownLang rt tag).isSome = true ∨
      normalizeLanguageCode rt (.ofList tag) ∈ keepLangs rt cleanup
  else
    normalizeLanguageCode rt (.ofList (extname path).toList.tail) ∈ keepLangs rt cleanup ∨
      Unwanted rt cleanup path

instance : Decidable (Unwanted rt cleanup path) :=
  inferInstanceAs (Decidable (_ ∧ ∃ tag ∈ tagOf path, ∃ lang ∈ knownLang rt tag, lang ∉ keepLangs rt cleanup))

instance : Decidable (Deletable rt cleanup path) := inferInstanceAs (Decidable (_ ∨ _))

instance : Decidable (Readable rt cleanup path) :=
  inferInstanceAs (Decidable (if extOf rt path = extname path then
    ∀ tag ∈ tagOf path, (knownLang rt tag).isSome = true ∨
      normalizeLanguageCode rt (.ofList tag) ∈ keepLangs rt cleanup else _ ∨ _))

theorem normalize_eq (rt : Runtime) (tag : List Char) :
    normalizeLanguageCode rt (.ofList tag) =
      (knownLang rt tag).getD (rt.toLowerCase (WhiteSpace.trim (.ofList tag))) := rfl

theorem codes_ne_empty : codeToCode.all (fun entry => entry.2 ≠ "") = true := by decide +kernel

theorem ne_empty_of_knownLang {lang : String} (h : lang ∈ knownLang rt tag) : lang ≠ "" := by
  have hmem := List.all_eq_true.1 codes_ne_empty _ (mem_of_mapGet h)
  exact of_decide_eq_true hmem

theorem eq_empty_of_lower (hrt : LowersLetters rt) {s : String} (h : rt.toLowerCase s = "") : s = "" := by
  have hmap := hrt s (by rw [h]; exact fun c hc => absurd hc (by simp))
  rw [h] at hmap
  exact String.toList_inj.1 (List.map_eq_nil_iff.1 hmap)

def readTag (rt : Runtime) (path : String) : Option (List Char) :=
  langTag (basenameWithout path (extOf rt path)).toList

theorem subtitleExt_chars :
    subtitleExt.all (fun ext => ext.toList.all fun c => decide (c.toNat < 128) && c ≠ 'k') = true := by
  decide

theorem subtitleExt_tags :
    subtitleExt.all (fun ext => ext.toList.tail.length = 3 && ext.toList.tail.all Char.isAlpha
      && !langFlags.contains ext && ext ≠ "") = true := by
  decide

/-- An extension that is not in small letters is read as the tag. -/
theorem readTag_of_extOf_ne (hrt : LowersLetters rt) (hext : extOf rt path ∈ subtitleExt)
    (hne : extOf rt path ≠ extname path) : readTag rt path = some (extname path).toList.tail := by
  have hletters : (extname path).toList.map Char.toLower = (extOf rt path).toList := by
    refine hrt _ fun c hc => ?_
    have hchars := List.all_eq_true.1 (List.all_eq_true.1 subtitleExt_chars _ hext) c hc
    simpa using hchars
  have htags := List.all_eq_true.1 subtitleExt_tags _ hext
  simp only [Bool.and_eq_true, decide_eq_true_eq, Bool.not_eq_true'] at htags
  obtain ⟨⟨⟨hthree, halpha⟩, hflag⟩, hnonempty⟩ := htags
  have hpath : extname path ≠ "" := by
    intro hempty
    rw [hempty] at hletters
    exact hnonempty (String.toList_inj.1 hletters.symm)
  obtain ⟨front, after, -, hbase, htext⟩ := component_of_extname hpath
  have hlength : (extOf rt path).length = (extname path).length := by
    rw [← String.length_toList, ← hletters, List.length_map, String.length_toList]
  have htail : after.map Char.toLower = (extOf rt path).toList.tail := by
    rw [← hletters, htext, List.map_cons, List.tail_cons]
  rw [readTag, basenameWithout_of_length hlength hne, basename, String.toList_ofList, hbase, htext]
  refine langTag_append (.inr ?_) (fun c hc => ?_) ?_
  · rw [← htail, List.length_map] at hthree
    exact hthree
  · rw [← htail, List.all_map] at halpha
    exact isAlpha_of_toLower (List.all_eq_true.1 halpha c hc)
  · rw [← htext, hletters, String.ofList_toList]
    simpa using hflag

/-- What makes a file junk. -/
def Junk (rt : Runtime) (ctx : RenameContext) (cleanup : CleanupRules) (f : MediaFileInput) : Prop :=
  (extOf rt f.path ∈ videoExt → (batchClass rt ctx f).isSample = true) ∧
    (matchesAnyGlob rt (basename f.path) cleanup.deleteGlobs = true ∨
      extOf rt f.path ∈ subtitleExt ∧ keepLangs rt cleanup ≠ [] ∧
        ∃ tag ∈ readTag rt f.path, normalizeLanguageCode rt (.ofList tag) ≠ "" ∧
          normalizeLanguageCode rt (.ofList tag) ∉ keepLangs rt cleanup)

theorem isSome_junkReason : (junkReason rt ctx cleanup f).isSome = true ↔ Junk rt ctx cleanup f := by
  have hext : (batchClass rt ctx f).ext = extOf rt f.path := rfl
  have hsubtitle : (batchClass rt ctx f).isSubtitle = subtitleExt.contains (extOf rt f.path) := rfl
  simp only [junkReason, Junk, hext, hsubtitle, readTag, List.contains_iff_mem, Bool.and_eq_true,
    decide_eq_true_eq, Bool.not_eq_true']
  split_ifs with hvideo hglob hsub
  · simp [hvideo.1, hvideo.2]
  · simpa [hglob] using hvideo
  · have hsample : extOf rt f.path ∈ videoExt → (batchClass rt ctx f).isSample = true := by
      simpa using hvideo
    cases htag : langTag (basenameWithout f.path (extOf rt f.path)).toList with
    | none => simp [hglob]
    | some tag => simpa [hglob, hsub, Option.isSome_ite] using fun _ _ => hsample
  · simp only [Option.isSome_none, Bool.false_eq_true, false_iff, hglob, false_or]
    exact fun hjunk => hsub ⟨hjunk.2.1, hjunk.2.2.1⟩

/-- The cleanup takes nothing else for junk exactly when it reads the language of a subtitle it looks at. -/
def Classified (rt : Runtime) (cleanup : CleanupRules) (path : String) : Prop :=
  matchesAnyGlob rt (basename path) cleanup.deleteGlobs = true ∨ extOf rt path ∉ subtitleExt ∨
    keepLangs rt cleanup = [] ∨ Readable rt cleanup path

instance : Decidable (Classified rt cleanup path) := inferInstanceAs (Decidable (_ ∨ _))

theorem no_video_of_subtitle : subtitleExt.all (fun ext => !videoExt.contains ext) = true := by decide

theorem not_video_of_subtitle {ext : String} (h : ext ∈ subtitleExt) : ext ∉ videoExt := by
  simpa using List.all_eq_true.1 no_video_of_subtitle _ h

/-- A tag that the table does not have and the list does not name. -/
theorem unwanted_of_known (hext : extOf rt path ∈ subtitleExt) (htag : tag ∈ tagOf path)
    (hknown : (knownLang rt tag).isSome = true)
    (hnot : normalizeLanguageCode rt (.ofList tag) ∉ keepLangs rt cleanup) :
    Unwanted rt cleanup path := by
  obtain ⟨lang, hlang⟩ := Option.isSome_iff_exists.1 hknown
  rw [normalize_eq, hlang, Option.getD_some] at hnot
  exact ⟨hext, tag, htag, lang, hlang, hnot⟩

theorem not_whiteSpace_of_alpha {c : Char} (h : c.isAlpha = true) : WhiteSpace.isWhiteSpace c = false :=
  WhiteSpace.isWhiteSpace_of_isAlphanum (by rw [Char.isAlphanum, h, Bool.true_or])

theorem letters_of_langTagAt (h : tag ∈ langTagAt text) : tag ≠ [] ∧ ∀ c ∈ tag, c.isAlpha = true := by
  unfold langTagAt at h
  split at h
  · dsimp only at h
    split_ifs at h with hcond
    · obtain rfl := Option.some.inj h
      refine ⟨fun hnil => ?_, fun c hc => List.mem_takeWhile_imp hc⟩
      have hlength := hcond.1
      rw [hnil] at hlength
      simp at hlength
    · exact absurd h (by simp)
  · exact absurd h (by simp)

theorem letters_of_langTag (h : tag ∈ langTag text) : tag ≠ [] ∧ ∀ c ∈ tag, c.isAlpha = true := by
  induction text with
  | nil => exact absurd h (by simp [langTag])
  | cons c text ih =>
    rw [langTag] at h
    rcases hhere : langTagAt (c :: text) with _ | found
    · rw [hhere, Option.none_or] at h
      exact ih h
    · rw [hhere, Option.some_or] at h
      exact letters_of_langTagAt (hhere.trans h)

/-- A tag is not made of white space, so no spelling of it is empty. -/
theorem normalize_ne_empty (hrt : LowersLetters rt) (htag : tag ∈ langTag text) :
    normalizeLanguageCode rt (.ofList tag) ≠ "" := by
  rw [normalize_eq]
  cases hknown : knownLang rt tag with
  | some lang => exact ne_empty_of_knownLang hknown
  | none =>
    intro hempty
    obtain ⟨hne, halpha⟩ := letters_of_langTag htag
    have htrim : WhiteSpace.trimmed tag = [] := by
      have hnil := congrArg String.toList (eq_empty_of_lower hrt hempty)
      rwa [WhiteSpace.trim, String.toList_ofList, String.toList_ofList] at hnil
    rw [WhiteSpace.trimmed_of_head fun c hc => not_whiteSpace_of_alpha (halpha c (List.mem_of_mem_head? hc)),
      List.rdropWhile_eq_nil_iff] at htrim
    obtain ⟨c, hc⟩ := List.exists_mem_of_ne_nil tag hne
    exact absurd (htrim c hc) (by simp [not_whiteSpace_of_alpha (halpha c hc)])

theorem classified_iff (hrt : LowersLetters rt) :
    (Junk rt ctx cleanup f → Deletable rt cleanup f.path) ↔ Classified rt cleanup f.path := by
  by_cases hglob : matchesAnyGlob rt (basename f.path) cleanup.deleteGlobs = true
  · exact iff_of_true (fun _ => .inl hglob) (.inl hglob)
  by_cases hsub : extOf rt f.path ∈ subtitleExt ∧ keepLangs rt cleanup ≠ []
  · have hjunk : Junk rt ctx cleanup f ↔ ∃ tag ∈ readTag rt f.path,
        normalizeLanguageCode rt (.ofList tag) ∉ keepLangs rt cleanup := by
      refine ⟨fun h => ?_, fun ⟨tag, htag, hnot⟩ => ⟨fun hvideo => ?_, .inr ⟨hsub.1, hsub.2, tag, htag, ?_, hnot⟩⟩⟩
      · obtain ⟨-, -, tag, htag, -, hnot⟩ := h.2.resolve_left hglob
        exact ⟨tag, htag, hnot⟩
      · exact absurd hvideo (not_video_of_subtitle hsub.1)
      · exact normalize_ne_empty hrt htag
    have hclassified : Classified rt cleanup f.path ↔ Readable rt cleanup f.path := by
      simp [Classified, hglob, hsub.1, hsub.2]
    have hdeletable : Deletable rt cleanup f.path ↔ Unwanted rt cleanup f.path := by
      simp [Deletable, hglob]
    rw [hjunk, hclassified, hdeletable, Readable]
    split_ifs with hlower
    · rw [readTag, hlower]
      refine ⟨fun h tag htag => ?_, fun h ⟨tag, htag, hnot⟩ => ?_⟩
      · by_cases hkeep : normalizeLanguageCode rt (.ofList tag) ∈ keepLangs rt cleanup
        · exact .inr hkeep
        · obtain ⟨-, tag', htag', lang, hlang, -⟩ := h ⟨tag, htag, hkeep⟩
          obtain rfl := Option.mem_unique htag htag'
          exact .inl (Option.isSome_iff_exists.2 ⟨lang, hlang⟩)
      · exact unwanted_of_known hsub.1 htag ((h tag htag).resolve_right hnot) hnot
    · rw [readTag_of_extOf_ne hrt hsub.1 hlower]
      simp only [Option.mem_def, Option.some.injEq, exists_eq_left']
      exact ⟨fun h => or_iff_not_imp_left.2 h, fun h => or_iff_not_imp_left.1 h⟩
  · refine iff_of_true (fun h => ?_) ?_
    · obtain ⟨hext, hkeep, -⟩ := h.2.resolve_left hglob
      exact absurd ⟨hext, hkeep⟩ hsub
    · rw [not_and_or, not_not] at hsub
      exact .inr (hsub.elim .inl fun hkeep => .inr (.inl hkeep))

/-! ### Who plans a file -/

/-- What a pass makes of a file stays the file, and nothing but the cleanup deletes. -/
def Follows (f : MediaFileInput) (item : PlannedItem) : Prop :=
  item.source = f.path ∧ item.action ≠ .delete

theorem modeToAction_ne_delete (mode : RenameMode) : modeToAction mode ≠ .delete := by
  cases mode <;> decide

def primaryItem (rt : Runtime) (ctx : RenameContext) (f : MediaFileInput) : Option PlannedItem :=
  match primaryOf rt ctx f with
  | .later => none
  | .left item _ | .extra item | .placed item _ _ => some item

theorem follows_primaryItem (h : item ∈ primaryItem rt ctx f) : Follows f item := by
  unfold primaryItem primaryOf at h
  dsimp only at h
  split_ifs at h <;> simp only [Option.mem_def, Option.some.injEq, reduceCtorEq] at h <;> subst h
  all_goals first
    | exact ⟨rfl, modeToAction_ne_delete _⟩
    | exact ⟨rfl, by simp [skipItem]⟩

theorem items_planPrimary (pass : FirstPass) (f : MediaFileInput) :
    (planPrimary rt ctx pass f).items = pass.items ++ (primaryItem rt ctx f).toList := by
  unfold planPrimary primaryItem
  cases primaryOf rt ctx f <;> simp

theorem items_foldl (files : List MediaFileInput) (pass : FirstPass) :
    (files.foldl (planPrimary rt ctx) pass).items = pass.items ++ files.filterMap (primaryItem rt ctx) := by
  induction files generalizing pass with
  | nil => simp
  | cons f files ih =>
    rw [List.foldl_cons, ih, items_planPrimary, List.append_assoc]
    cases h : primaryItem rt ctx f <;> simp [h]

theorem items_firstPass : (firstPass rt ctx).items = (keptFiles rt ctx).filterMap (primaryItem rt ctx) := by
  rw [firstPass, items_foldl, List.nil_append]

theorem isSome_subtitleItem :
    (subtitleItem rt ctx videos f).isSome = subtitleExt.contains (extOf rt f.path) := by
  unfold subtitleItem
  dsimp only
  cases h : subtitleExt.contains (extOf rt f.path) <;> simp

theorem follows_subtitleItem (h : item ∈ subtitleItem rt ctx videos f) : Follows f item := by
  unfold subtitleItem at h
  dsimp only at h
  split_ifs at h
  · exact absurd h (by simp)
  · obtain rfl := Option.some.inj h
    split
    · exact ⟨rfl, modeToAction_ne_delete _⟩
    · exact ⟨rfl, by simp [skipItem]⟩
    · exact ⟨rfl, by simp [skipItem]⟩

theorem follows_sidecarItem : Follows f (sidecarItem rt ctx videos f) := by
  unfold sidecarItem
  dsimp only
  split
  · exact ⟨rfl, by simp [skipItem]⟩
  · exact ⟨rfl, modeToAction_ne_delete _⟩

theorem source_of_deletion (h : item ∈ deletion rt ctx f) : item.source = f.path := by
  obtain ⟨reason, -, rfl⟩ := Option.map_eq_some_iff.1 h
  rfl

theorem isSome_deletion : (deletion rt ctx f).isSome = true ↔
    ∃ cleanup ∈ cleanupActive ctx, Junk rt ctx cleanup f := by
  rw [deletion, Option.isSome_map, Option.isSome_bind]
  cases cleanupActive ctx with
  | none => simp
  | some cleanup => simp [isSome_junkReason]

theorem mem_toDelete : path ∈ toDelete rt ctx ↔
    ∃ f ∈ ctx.files, f.path = path ∧ (deletion rt ctx f).isSome = true := by
  rw [toDelete, deletions, map_filterMap_eq fun f _ item => source_of_deletion]
  simp only [List.mem_map, List.mem_filter]
  exact ⟨fun ⟨f, ⟨hf, hsome⟩, hpath⟩ => ⟨f, hf, hpath, hsome⟩,
    fun ⟨f, hf, hpath, hsome⟩ => ⟨f, ⟨hf, hsome⟩, hpath⟩⟩

section Passes

variable (rt : Runtime) (ctx : RenameContext)

def isKept (f : MediaFileInput) : Bool := f.path ∉ toDelete rt ctx

def passes : List (MediaFileInput → Bool) :=
  [fun f => (deletion rt ctx f).isSome,
    fun f => isKept rt ctx f && (primaryItem rt ctx f).isSome,
    fun f => isKept rt ctx f && subtitleExt.contains (extOf rt f.path),
    fun f => isKept rt ctx f && (f.path ∉ (plannedBefore rt ctx).map (·.source) ∧
      (batchClass rt ctx f).kind = .general)]

theorem sources_deletions :
    (deletions rt ctx).map (·.source) =
      (ctx.files.filter fun f => (deletion rt ctx f).isSome).map (·.path) :=
  map_filterMap_eq fun _ _ _ h => source_of_deletion h

theorem sources_firstPass :
    (firstPass rt ctx).items.map (·.source) =
      (ctx.files.filter fun f => isKept rt ctx f && (primaryItem rt ctx f).isSome).map (·.path) := by
  rw [items_firstPass, map_filterMap_eq fun f _ item h => (follows_primaryItem h).1, keptFiles,
    List.filter_filter]
  simp only [isKept, Bool.and_comm]

theorem sources_subtitleItems :
    (subtitleItems rt ctx).map (·.source) =
      (ctx.files.filter fun f => isKept rt ctx f && subtitleExt.contains (extOf rt f.path)).map
        (·.path) := by
  rw [subtitleItems, map_filterMap_eq fun f _ item h => (follows_subtitleItem h).1, keptFiles,
    List.filter_filter]
  simp only [isKept, isSome_subtitleItem, Bool.and_comm]

theorem sources_sidecarItems :
    (sidecarItems rt ctx).map (·.source) =
      (ctx.files.filter fun f => isKept rt ctx f && (f.path ∉ (plannedBefore rt ctx).map (·.source) ∧
        (batchClass rt ctx f).kind = .general)).map (·.path) := by
  have hsource : (fun item : PlannedItem => item.source) ∘
      sidecarItem rt ctx (firstPass rt ctx).videoDest = fun f => f.path :=
    funext fun f => follows_sidecarItem.1
  rw [sidecarItems, List.map_map, hsource, keptFiles, List.filter_filter]
  simp only [isKept, Bool.and_comm]

theorem sources_plannedItems :
    (plannedItems rt ctx).map (·.source) =
      ((passes rt ctx).flatMap fun p => ctx.files.filter p).map (·.path) := by
  simp only [plannedItems, plannedBefore, List.map_append, sources_deletions, sources_firstPass,
    sources_subtitleItems, sources_sidecarItems, passes, List.flatMap_cons, List.flatMap_nil,
    List.append_nil, List.append_assoc]

theorem mem_plannedBefore (hkept : f.path ∉ toDelete rt ctx) :
    f.path ∈ (plannedBefore rt ctx).map (·.source) ↔ ∃ g ∈ ctx.files, g.path = f.path ∧
      ((primaryItem rt ctx g).isSome = true ∨ extOf rt g.path ∈ subtitleExt) := by
  have hdeleted : f.path ∉ (deletions rt ctx).map (·.source) := hkept
  rw [plannedBefore, List.map_append, List.map_append, List.mem_append, List.mem_append,
    or_iff_right hdeleted, sources_firstPass, sources_subtitleItems, List.mem_map, List.mem_map,
    ← exists_or]
  refine exists_congr fun g => ?_
  simp only [List.mem_filter, isKept, Bool.and_eq_true, decide_eq_true_eq, List.contains_iff_mem]
  constructor
  · rintro (⟨⟨hg, -, hplanned⟩, hpath⟩ | ⟨⟨hg, -, hplanned⟩, hpath⟩)
    · exact ⟨hg, hpath, .inl hplanned⟩
    · exact ⟨hg, hpath, .inr hplanned⟩
  · rintro ⟨hg, hpath, hplanned⟩
    have hgkept : g.path ∉ toDelete rt ctx := hpath ▸ hkept
    exact hplanned.imp (fun h => ⟨⟨hg, hgkept, h⟩, hpath⟩) fun h => ⟨⟨hg, hgkept, h⟩, hpath⟩

end Passes

theorem isSample_fileClass : (fileClass rt ctx f).isSample = (batchClass rt ctx f).isSample := by
  simp only [fileClass, batchClass, classifyFile]

theorem kind_of_audio (h : audioExt.contains (fileClass rt ctx f).ext = true) :
    (fileClass rt ctx f).kind ≠ .general := by
  simp only [fileClass, classifyFile] at h ⊢
  rw [if_pos h]
  split_ifs <;> decide

theorem primaryItem_eq_none : primaryItem rt ctx f = none ↔ extOf rt f.path ∈ subtitleExt ∨
    (batchClass rt ctx f).isSample = false ∧ (fileClass rt ctx f).kind = .general := by
  have hsubtitle : (fileClass rt ctx f).isSubtitle = subtitleExt.contains (extOf rt f.path) := by
    simp only [fileClass, classifyFile]
  unfold primaryItem primaryOf
  dsimp only
  rw [hsubtitle, isSample_fileClass]
  simp only [List.contains_iff_mem]
  split_ifs with hsub hsampled htheme hgeneral
  · simp [hsub]
  · simp [hsub, hsampled]
  · rw [Bool.and_eq_true, Bool.and_eq_true] at htheme
    simp [hsub, kind_of_audio htheme.1.1]
  · simp [hsampled, hgeneral]
  all_goals simp [hsub, hgeneral]

theorem exclusive_passes : Exclusive (passes rt ctx) ctx.files := by
  have hdeleted : ∀ f ∈ ctx.files, (deletion rt ctx f).isSome = true → isKept rt ctx f = false := by
    intro f hf hsome
    simpa [isKept] using mem_toDelete.2 ⟨f, hf, rfl, hsome⟩
  have hplanned : ∀ f ∈ ctx.files, isKept rt ctx f = true →
      ((primaryItem rt ctx f).isSome = true ∨ extOf rt f.path ∈ subtitleExt) →
      f.path ∈ (plannedBefore rt ctx).map (·.source) := by
    intro f hf hkept h
    exact (mem_plannedBefore rt ctx (of_decide_eq_true hkept)).2 ⟨f, hf, rfl, h⟩
  refine .cons ?_ (.cons ?_ (.cons ?_ (.cons (by simp) .nil)))
  · intro q hq f hf hsome
    simp only [List.mem_cons, List.not_mem_nil, or_false] at hq
    rcases hq with rfl | rfl | rfl <;> simp [hdeleted f hf hsome]
  · intro q hq f hf hsome
    rw [Bool.and_eq_true] at hsome
    simp only [List.mem_cons, List.not_mem_nil, or_false] at hq
    rcases hq with rfl | rfl
    · have hnot : extOf rt f.path ∉ subtitleExt := fun hsub => by
        rw [primaryItem_eq_none.2 (.inl hsub)] at hsome
        exact absurd hsome.2 (by simp)
      simp [hnot]
    · simp [hplanned f hf hsome.1 (.inl hsome.2)]
  · intro q hq f hf hsome
    rw [Bool.and_eq_true, List.contains_iff_mem] at hsome
    obtain rfl := List.mem_singleton.1 hq
    simp [hplanned f hf hsome.1 (.inr hsome.2)]

/-! ### No file is left out -/

theorem batchKind_of_fileKind (h : fileKind ctx f = .general) : batchKind ctx = .general := by
  unfold fileKind parsedOf identifyFile at h
  dsimp only at h
  split_ifs at h with hown
  · exact h
  · rcases contentType_of_episode hown with hcontent | hcontent | hcontent <;>
      simp [kindFromParsed, hcontent] at h

/-- A file that the first pass leaves is a general file of the batch too. -/
theorem batchClass_of_fileClass (h : (fileClass rt ctx f).kind = .general) :
    (batchClass rt ctx f).kind = .general := by
  simp only [fileClass, batchClass, classifyFile] at h ⊢
  split_ifs at h ⊢ with haudiobook haudio hbook hother
  · rfl
  · exact batchKind_of_fileKind h

theorem fileKind_of_general (h : (fileClass rt ctx f).kind = .general) (hvideo : extOf rt f.path ∈ videoExt) :
    fileKind ctx f = .general := by
  have hcontains : videoExt.contains (extOf rt f.path) = true := List.contains_iff_mem.2 hvideo
  simp only [fileClass, classifyFile, hcontains] at h
  split_ifs at h with haudiobook haudio hbook hother
  · exact absurd hother (by simp)
  · exact h

theorem video_of_isSample (h : (batchClass rt ctx f).isSample = true) : extOf rt f.path ∈ videoExt := by
  simp only [batchClass, classifyFile, Bool.and_eq_true, List.contains_iff_mem] at h
  exact h.1.2

theorem no_audio_of_video :
    videoExt.all (fun ext => !audioExt.contains ext && !audiobookExt.contains ext) = true := by
  decide

theorem kind_of_video (h : extOf rt f.path ∈ videoExt) (hkind : fileKind ctx f = .general) :
    (fileClass rt ctx f).kind = .general := by
  have hno := List.all_eq_true.1 no_audio_of_video _ h
  simp only [Bool.and_eq_true, Bool.not_eq_true'] at hno
  simp only [fileClass, classifyFile, hno.1, hno.2, hkind]
  simp

/-- Where a path is listed as a sample and as no sample, no pattern matches it, and its own name or the
batch says what it is. -/
def SamplesAgree (rt : Runtime) (ctx : RenameContext) : Prop :=
  ∀ f ∈ ctx.files, ∀ g ∈ ctx.files, g.path = f.path → (batchClass rt ctx g).isSample = true →
    (batchClass rt ctx f).isSample = false →
      (∀ cleanup ∈ cleanupActive ctx,
        matchesAnyGlob rt (basename f.path) cleanup.deleteGlobs = false) ∧ fileKind ctx f ≠ .general

/-- The size of a file matters only for a video that a pattern matches. -/
theorem junk_of_samePath (hpath : g.path = f.path) (hg : Junk rt ctx cleanup g)
    (hsample : extOf rt f.path ∈ videoExt → (batchClass rt ctx f).isSample = true) :
    Junk rt ctx cleanup f := by
  refine ⟨hsample, ?_⟩
  have hwhy := hg.2
  rw [hpath] at hwhy
  exact hwhy

theorem fileKind_congr (hpath : g.path = f.path) : fileKind ctx g = fileKind ctx f := by
  rw [fileKind, fileKind, parsedOf, parsedOf, hpath]

theorem kind_congr (hpath : g.path = f.path) : (fileClass rt ctx g).kind = (fileClass rt ctx f).kind := by
  simp only [fileClass, classifyFile, hpath, fileKind_congr hpath]

theorem isKept_iff : isKept rt ctx f = true ↔
    ∀ g ∈ ctx.files, g.path = f.path → ∀ cleanup ∈ cleanupActive ctx, ¬Junk rt ctx cleanup g := by
  rw [isKept, decide_eq_true_eq, mem_toDelete]
  refine ⟨fun h g hg hpath cleanup hcleanup hjunk => ?_, fun h ⟨g, hg, hpath, hsome⟩ => ?_⟩
  · exact h ⟨g, hg, hpath, isSome_deletion.2 ⟨cleanup, hcleanup, hjunk⟩⟩
  · obtain ⟨cleanup, hcleanup, hjunk⟩ := isSome_deletion.1 hsome
    exact h g hg hpath cleanup hcleanup hjunk

theorem kept_taken_iff (hkept : isKept rt ctx f = true) :
    ((primaryItem rt ctx f).isSome = true ∨ extOf rt f.path ∈ subtitleExt ∨
      f.path ∉ (plannedBefore rt ctx).map (·.source) ∧ (batchClass rt ctx f).kind = .general) ↔
    ∀ g ∈ ctx.files, g.path = f.path → (batchClass rt ctx g).isSample = true →
      (batchClass rt ctx f).isSample = false → fileKind ctx f ≠ .general := by
  rw [mem_plannedBefore rt ctx (of_decide_eq_true hkept)]
  constructor
  · intro htaken g hg hpath hgsample hfsample hgeneral
    have hvideo : extOf rt f.path ∈ videoExt := hpath ▸ video_of_isSample hgsample
    have hgplanned : (primaryItem rt ctx g).isSome = true := by
      rw [Option.isSome_iff_ne_none, Ne, primaryItem_eq_none, not_or, not_and_or]
      exact ⟨fun hsub => not_video_of_subtitle hsub (video_of_isSample hgsample), .inl (by simp [hgsample])⟩
    rcases htaken with hplanned | hsub | ⟨hnot, -⟩
    · rw [primaryItem_eq_none.2 (.inr ⟨hfsample, kind_of_video hvideo hgeneral⟩)] at hplanned
      exact absurd hplanned (by simp)
    · exact not_video_of_subtitle hsub hvideo
    · exact hnot ⟨g, hg, hpath, .inl hgplanned⟩
  · intro hagree
    by_cases hsub : extOf rt f.path ∈ subtitleExt
    · exact .inr (.inl hsub)
    rcases hprimary : primaryItem rt ctx f with _ | item
    · obtain ⟨hfsample, hkind⟩ := (primaryItem_eq_none.1 hprimary).resolve_left hsub
      refine .inr (.inr ⟨?_, batchClass_of_fileClass hkind⟩)
      rintro ⟨g, hg, hpath, hplanned | hgsub⟩
      · rw [Option.isSome_iff_ne_none, Ne, primaryItem_eq_none, not_or, not_and_or] at hplanned
        have hgsample : (batchClass rt ctx g).isSample = true := by
          rcases hplanned.2 with hsample | hother
          · simpa using hsample
          · exact absurd ((kind_congr hpath).trans hkind) hother
        have hvideo : extOf rt f.path ∈ videoExt := hpath ▸ video_of_isSample hgsample
        exact hagree g hg hpath hgsample hfsample (fileKind_of_general hkind hvideo)
      · exact hsub (hpath ▸ hgsub)
    · exact .inl rfl

theorem taken_iff : (∃ p ∈ passes rt ctx, p f = true) ↔
    (deletion rt ctx f).isSome = true ∨ isKept rt ctx f = true ∧
      ((primaryItem rt ctx f).isSome = true ∨ extOf rt f.path ∈ subtitleExt ∨
        f.path ∉ (plannedBefore rt ctx).map (·.source) ∧ (batchClass rt ctx f).kind = .general) := by
  simp [passes, and_or_left]

theorem all_taken_iff : (∀ f ∈ ctx.files, ∃ p ∈ passes rt ctx, p f = true) ↔ SamplesAgree rt ctx := by
  simp only [taken_iff]
  constructor
  · intro h f hf g hg hpath hgsample hfsample
    have hvideo : extOf rt f.path ∈ videoExt := hpath ▸ video_of_isSample hgsample
    have hnotjunk : (deletion rt ctx f).isSome ≠ true := fun hsome => by
      obtain ⟨cleanup, -, hjunk⟩ := isSome_deletion.1 hsome
      exact absurd (hjunk.1 hvideo) (by simp [hfsample])
    obtain ⟨hkept, htaken⟩ := (h f hf).resolve_left hnotjunk
    refine ⟨fun cleanup hcleanup => ?_, (kept_taken_iff hkept).1 htaken g hg hpath hgsample hfsample⟩
    rw [Bool.eq_false_iff]
    intro hglob
    exact isKept_iff.1 hkept g hg hpath cleanup hcleanup ⟨fun _ => hgsample, .inl (by rwa [hpath])⟩
  · intro hagree f hf
    by_cases hsome : (deletion rt ctx f).isSome = true
    · exact .inl hsome
    have hkept : isKept rt ctx f = true := by
      refine isKept_iff.2 fun g hg hpath cleanup hcleanup hjunk => hsome ?_
      refine isSome_deletion.2 ⟨cleanup, hcleanup, junk_of_samePath hpath hjunk fun hvideo => ?_⟩
      by_contra hfsample
      have hgvideo : extOf rt g.path ∈ videoExt := hpath ▸ hvideo
      have hnoglob := (hagree f hf g hg hpath (hjunk.1 hgvideo) (by simpa using hfsample)).1 cleanup hcleanup
      rcases hjunk.2 with hglob | ⟨hsub, -⟩
      · rw [hpath, hnoglob] at hglob
        exact absurd hglob (by decide)
      · exact not_video_of_subtitle hsub hgvideo
    refine .inr ⟨hkept, (kept_taken_iff hkept).2 fun g hg hpath hgsample hfsample => ?_⟩
    exact (hagree f hf g hg hpath hgsample hfsample).2

/-! ### The plan -/

/-- What a plan may delete and what it must hold. -/
structure SafelyPlanned (rt : Runtime) (ctx : RenameContext) : Prop where
  classified : ∀ item ∈ (buildRenamePlan rt ctx).items, item.action = .delete →
    ∃ cleanup, ctx.cleanup = some cleanup ∧ cleanup.enabled = true ∧ Deletable rt cleanup item.source
  noVideo : ∀ item ∈ (buildRenamePlan rt ctx).items, item.action = .delete →
    ∀ f ∈ ctx.files, f.path = item.source → extOf rt f.path ∈ videoExt →
      (batchClass rt ctx f).isSample = true
  modes : ∀ item ∈ (buildRenamePlan rt ctx).items, item.action = .delete →
    ctx.mode = .renameInPlace ∨ ctx.mode = .renameMove
  once : ((buildRenamePlan rt ctx).items.map (·.source)).Perm (ctx.files.map (·.path))

/-- Where the cleanup is active it reads every subtitle's language, and the entries of one path agree. -/
structure CleanlyListed (rt : Runtime) (ctx : RenameContext) : Prop where
  classified : ∀ cleanup ∈ cleanupActive ctx, ∀ f ∈ ctx.files, Classified rt cleanup f.path
  samples : SamplesAgree rt ctx

theorem sources_items :
    (buildRenamePlan rt ctx).items.map (·.source) = (plannedItems rt ctx).map (·.source) := by
  rw [buildRenamePlan, List.map_map]
  rfl

theorem once_iff_samplesAgree :
    ((buildRenamePlan rt ctx).items.map (·.source)).Perm (ctx.files.map (·.path)) ↔
      SamplesAgree rt ctx := by
  rw [sources_items, sources_plannedItems, once_iff exclusive_passes, all_taken_iff]

theorem deletion_action (h : item ∈ deletion rt ctx f) : item.action = .delete := by
  obtain ⟨reason, -, rfl⟩ := Option.map_eq_some_iff.1 h
  rfl

/-- Only the cleanup deletes. -/
theorem mem_deletions (h : item ∈ plannedItems rt ctx) (hdelete : item.action = .delete) :
    ∃ f ∈ ctx.files, item.source = f.path ∧ ∃ cleanup ∈ cleanupActive ctx, Junk rt ctx cleanup f := by
  rw [plannedItems, plannedBefore, List.mem_append, List.mem_append, List.mem_append] at h
  rcases h with ((h | h) | h) | h
  · obtain ⟨f, hf, hitem⟩ := List.mem_filterMap.1 h
    exact ⟨f, hf, source_of_deletion hitem, isSome_deletion.1 (Option.isSome_iff_exists.2 ⟨item, hitem⟩)⟩
  · rw [items_firstPass] at h
    obtain ⟨f, -, hitem⟩ := List.mem_filterMap.1 h
    exact absurd hdelete (follows_primaryItem hitem).2
  · obtain ⟨f, -, hitem⟩ := List.mem_filterMap.1 h
    exact absurd hdelete (follows_subtitleItem hitem).2
  · obtain ⟨f, -, rfl⟩ := List.mem_map.1 h
    exact absurd hdelete follows_sidecarItem.2

theorem delete_items (h : ∃ item ∈ (buildRenamePlan rt ctx).items, item.action = .delete ∧ item.source = path) :
    ∃ f ∈ ctx.files, path = f.path ∧ ∃ cleanup ∈ cleanupActive ctx, Junk rt ctx cleanup f := by
  obtain ⟨item, hitem, hdelete, rfl⟩ := h
  obtain ⟨planned, hplanned, rfl⟩ := List.mem_map.1 hitem
  exact mem_deletions hplanned hdelete

theorem mem_items_of_junk (hf : f ∈ ctx.files) (hcleanup : cleanup ∈ cleanupActive ctx)
    (hjunk : Junk rt ctx cleanup f) :
    ∃ item ∈ (buildRenamePlan rt ctx).items, item.action = .delete ∧ item.source = f.path := by
  obtain ⟨item, hitem⟩ := Option.isSome_iff_exists.1 (isSome_deletion.2 ⟨cleanup, hcleanup, hjunk⟩)
  have hmem : item ∈ plannedItems rt ctx := by
    simp only [plannedItems, plannedBefore, List.mem_append]
    exact .inl (.inl (.inl (List.mem_filterMap.2 ⟨f, hf, hitem⟩)))
  exact ⟨marked item, List.mem_map_of_mem hmem, deletion_action hitem, source_of_deletion hitem⟩

theorem cleanupActive_spec (h : cleanup ∈ cleanupActive ctx) :
    ctx.cleanup = some cleanup ∧ cleanup.enabled = true ∧
      (ctx.mode = .renameInPlace ∨ ctx.mode = .renameMove) := by
  obtain ⟨hsome, hcond⟩ := Option.filter_eq_some_iff.1 h
  simp only [Bool.and_eq_true, Bool.or_eq_true, decide_eq_true_eq] at hcond
  exact ⟨hsome, hcond⟩

/-- A plan deletes only what its rules and the language table name, no video, and plans each file once,
exactly when the cleanup can read every subtitle and no two entries of a path disagree. -/
theorem deletes_only_classified (hrt : LowersLetters rt) : SafelyPlanned rt ctx ↔ CleanlyListed rt ctx := by
  constructor
  · intro h
    refine ⟨fun cleanup hcleanup f hf => ?_, once_iff_samplesAgree.1 h.once⟩
    refine (classified_iff hrt).1 fun hjunk : Junk rt ctx cleanup f => ?_
    obtain ⟨item, hitem, hdelete, hsource⟩ := mem_items_of_junk hf hcleanup hjunk
    obtain ⟨cleanup', hsome, -, hdeletable⟩ := h.classified item hitem hdelete
    obtain rfl := Option.some.inj ((cleanupActive_spec hcleanup).1.symm.trans hsome)
    exact hsource ▸ hdeletable
  · intro h
    have hjunk : ∀ item ∈ (buildRenamePlan rt ctx).items, item.action = .delete →
        ∃ f ∈ ctx.files, item.source = f.path ∧ ∃ cleanup ∈ cleanupActive ctx, Junk rt ctx cleanup f :=
      fun item hitem hdelete => delete_items ⟨item, hitem, hdelete, rfl⟩
    refine ⟨fun item hitem hdelete => ?_, fun item hitem hdelete f hf hpath hvideo => ?_,
      fun item hitem hdelete => ?_, once_iff_samplesAgree.2 h.samples⟩
    · obtain ⟨f, hf, hsource, cleanup, hcleanup, hjunk⟩ := hjunk item hitem hdelete
      obtain ⟨hsome, henabled, -⟩ := cleanupActive_spec hcleanup
      refine ⟨cleanup, hsome, henabled, ?_⟩
      rw [hsource]
      exact (classified_iff hrt).2 (h.classified cleanup hcleanup f hf) hjunk
    · obtain ⟨g, hg, hsource, cleanup, hcleanup, hgjunk⟩ := hjunk item hitem hdelete
      have hsame : g.path = f.path := hsource.symm.trans hpath.symm
      have hgsample : (batchClass rt ctx g).isSample = true := hgjunk.1 (hsame ▸ hvideo)
      by_contra hfsample
      have hnoglob := (h.samples f hf g hg hsame hgsample (by simpa using hfsample)).1 cleanup hcleanup
      rcases hgjunk.2 with hglob | ⟨hsub, -⟩
      · rw [hsame, hnoglob] at hglob
        exact absurd hglob (by decide)
      · exact not_video_of_subtitle hsub (hsame ▸ hvideo)
    · obtain ⟨f, -, -, cleanup, hcleanup, -⟩ := hjunk item hitem hdelete
      exact (cleanupActive_spec hcleanup).2.2

/-! ### A film and its subtitles -/

theorem lowersLetters_ascii : LowersLetters .ascii := by
  intro s _
  show s.toList.map Char.toLower = (s.map Char.toLower).toList
  rw [String.toList_map]

/-- A film of which the English subtitle is to be kept. -/
def film (subtitles : List String) : RenameContext where
  sourceName := "A.Film.2020.1080p"
  files := ⟨"A.Film.2020.1080p.mkv", 4000000000⟩ :: subtitles.map fun name => ⟨name, 90000⟩
  preset := .plex
  mode := .renameMove
  libraryPath := "/media"
  cleanup := some ⟨true, [], ["eng"]⟩

theorem film_safelyPlanned :
    SafelyPlanned .ascii (film ["A.Film.2020.en.srt", "A.Film.2020.fre.forced.srt", "A.Film.2020.srt"]) := by
  refine (deletes_only_classified lowersLetters_ascii).2 ⟨?_, ?_⟩
  · decide +kernel
  · unfold SamplesAgree
    decide +kernel

/-- The extension in capital letters is taken for a language that the list does not have. -/
theorem english_deleted : ¬SafelyPlanned .ascii (film ["A.Film.2020.en.SRT"]) := by
  intro h
  have hjunk : Junk .ascii (film ["A.Film.2020.en.SRT"]) ⟨true, [], ["eng"]⟩
      ⟨"A.Film.2020.en.SRT", 90000⟩ := by
    refine ⟨fun hvideo => absurd hvideo (by decide +kernel), .inr ⟨by decide +kernel, by decide +kernel, ?_⟩⟩
    decide +kernel
  obtain ⟨item, hitem, hdelete, hsource⟩ :=
    mem_items_of_junk (List.mem_cons_of_mem _ List.mem_cons_self) rfl hjunk
  obtain ⟨cleanup, hcleanup, -, hdeletable⟩ := h.classified item hitem hdelete
  obtain rfl := Option.some.inj hcleanup
  rw [hsource] at hdeletable
  revert hdeletable
  decide +kernel

end UltraTorrent.MediaRenamer.CleanedBatches
