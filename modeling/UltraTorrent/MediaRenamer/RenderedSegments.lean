import UltraTorrent.MediaRenamer.RenderTemplate
import UltraTorrent.Library.Segments

/-! What a rendered name is made of: segments any file system takes, and directories that are the
template's own, except where a padded token writes them. -/
namespace UltraTorrent.MediaRenamer.RenderedSegments

open Library Library.Replacement Library.WhiteSpace RenderTemplate

/-! ### Segments -/

/-- A segment that can stand as a name anywhere. -/
structure SafeSegment (seg : List Char) : Prop where
  ne_nil : seg ≠ []
  ne_dot : seg ≠ ['.']
  ne_dots : seg ≠ ['.', '.']
  clean : ∀ c ∈ seg, isControl c = false ∧ isIllegal c = false
  head : ∀ c ∈ seg.head?, c ≠ ' '
  last : ∀ c ∈ seg.getLast?, c ≠ ' ' ∧ c ≠ '.'

variable {text seg : List Char}

theorem consumes_spaces : Consumes spaces := by
  intro text b rest h
  cases text with
  | nil => cases h
  | cons c text =>
    rw [spaces] at h
    split_ifs at h with hc
    cases h
    exact ⟨c :: text.takeWhile isWhiteSpace, List.cons_ne_nil _ _, by
      rw [List.cons_append, List.takeWhile_append_dropWhile]⟩

theorem dropWhile_sublist (p : Char → Bool) (text : List Char) : (text.dropWhile p).Sublist text :=
  (List.dropWhile_suffix p).sublist

theorem danglingDash_sublist (ending : List Char → Bool) (text b rest : List Char) (h : danglingDash ending text = some (b, rest)) :
    (id b ++ rest).Sublist text := by
  unfold danglingDash at h
  split at h
  · rename_i more hmore
    dsimp only at h
    split_ifs at h
    cases h
    have hdash : more.Sublist text := ((List.sublist_cons_self '-' more).trans
      (hmore ▸ dropWhile_sublist isWhiteSpace text))
    simpa using (dropWhile_sublist isWhiteSpace more).trans hdash
  · cases h

theorem straySpace_sublist (ending : List Char → Bool) (text b rest : List Char) (h : straySpace ending text = some (b, rest)) :
    (id b ++ rest).Sublist text := by
  obtain ⟨⟨u, more⟩, hspaces, h⟩ := Option.bind_eq_some_iff.1 h
  split_ifs at h
  cases h
  obtain ⟨front, -, rfl⟩ := consumes_spaces _ _ _ hspaces
  simp

/-- Of white space only the space is left. -/
def Plain (c : Char) : Prop :=
  isControl c = false ∧ isIllegal c = false ∧ (isWhiteSpace c = true → c = ' ')

theorem plain_space : Plain ' ' := by
  unfold Plain
  decide

theorem plain_collapsed (input : List Char) :
    ∀ c ∈ replaceAll spaces (fun _ => [' '])
      ((input.filter (!isControl ·)).map fun c => if isIllegal c then ' ' else c), Plain c := by
  refine forall_replaceAll consumes_spaces (fun c rest hnone hc => ?_) fun _ c hc => ?_
  · have hvisible : isWhiteSpace c = false := by
      rw [spaces] at hnone
      split_ifs at hnone with hspace
      simpa using hspace
    obtain ⟨d, hd, rfl⟩ := List.mem_map.1 hc
    rw [List.mem_filter, Bool.not_eq_true'] at hd
    split_ifs with hillegal
    · exact plain_space
    · rw [if_neg hillegal] at hvisible
      exact ⟨hd.2, by simpa using hillegal, fun h => absurd (hvisible.symm.trans h) (by decide)⟩
  · rw [List.mem_singleton] at hc
    exact hc ▸ plain_space

theorem head?_dropWhile (p : Char → Bool) (text : List Char) :
    ∀ c ∈ (text.dropWhile p).head?, p c = false := by
  induction text with
  | nil => simp
  | cons d text ih =>
    rw [List.dropWhile_cons]
    split_ifs with hd
    · exact ih
    · simpa using hd

theorem getLast?_rdropWhile (p : Char → Bool) (text : List Char) :
    ∀ c ∈ (text.rdropWhile p).getLast?, p c = false := by
  rw [List.rdropWhile, List.getLast?_reverse]
  exact head?_dropWhile p text.reverse

theorem getLast?_dropWhile (p : Char → Bool) (text : List Char) :
    ∀ c ∈ (text.dropWhile p).getLast?, c ∈ text.getLast? := by
  intro c hc
  obtain ⟨front, hfront⟩ := List.dropWhile_suffix p (l := text)
  rw [← hfront, List.getLast?_append, hc]
  rfl

/-- Without white space at its end a text is trimmed at its front only. -/
theorem trimmed_of_last (h : ∀ c ∈ text.getLast?, isWhiteSpace c = false) :
    trimmed text = text.dropWhile isWhiteSpace := by
  rw [trimmed, rdropWhile_eq_self, EndsInWhiteSpace, Option.any_eq_true]
  rintro ⟨c, hc, hspace⟩
  rw [h c (getLast?_dropWhile isWhiteSpace text c hc)] at hspace
  exact absurd hspace (by decide)

theorem safe_sanitizeSegment (input : List Char) (hne : sanitizeSegment input ≠ []) :
    SafeSegment (sanitizeSegment input) := by
  have hplain := plain_collapsed input
  unfold sanitizeSegment at hne ⊢
  dsimp only at hne ⊢
  generalize replaceAll spaces (fun _ => [' '])
    ((input.filter (!isControl ·)).map fun c => if isIllegal c then ' ' else c) = s at hplain hne ⊢
  have hfirst := replaceFirst_sublist (f := id) (danglingDash_sublist isCompoundExtension) s
  generalize replaceFirst (danglingDash isCompoundExtension) id s = s' at hfirst hne ⊢
  have hsecond :=
    (replaceFirst_sublist (f := id) (straySpace_sublist isCompoundExtension) s').trans hfirst
  generalize replaceFirst (straySpace isCompoundExtension) id s' = s'' at hsecond hne ⊢
  have hstop : ∀ c ∈ (s''.rdropWhile fun c => c = ' ' || c = '.').getLast?, c ≠ ' ' ∧ c ≠ '.' := by
    intro c hc
    simpa using getLast?_rdropWhile _ s'' c hc
  generalize hu : (s''.rdropWhile fun c => c = ' ' || c = '.') = u at hstop hne ⊢
  have hchars : ∀ c ∈ u, Plain c := fun c hc =>
    hplain c (hsecond.subset ((hu ▸ List.rdropWhile_prefix _ s'').subset hc))
  have htrimmed : trimmed u = u.dropWhile isWhiteSpace := trimmed_of_last fun c hc => by
    by_contra hspace
    exact (hstop c hc).1 ((hchars c (List.mem_of_getLast? hc)).2.2 (by simpa using hspace))
  rw [htrimmed] at hne ⊢
  have hlast : ∀ c ∈ (u.dropWhile isWhiteSpace).getLast?, c ≠ ' ' ∧ c ≠ '.' :=
    fun c hc => hstop c (getLast?_dropWhile isWhiteSpace u c hc)
  exact {
    ne_nil := hne
    ne_dot := fun h => (hlast '.' (by rw [h]; rfl)).2 rfl
    ne_dots := fun h => (hlast '.' (by rw [h]; rfl)).2 rfl
    clean := fun c hc =>
      have hc := hchars c ((dropWhile_sublist isWhiteSpace u).subset hc)
      ⟨hc.1, hc.2.1⟩
    head := fun c hc heq => absurd (heq ▸ head?_dropWhile isWhiteSpace u c hc) (by decide)
    last := hlast }

/-! ### The path a name is read as -/

/-- What stands between the slashes of a path; an empty one has no segments. -/
def pathSegments (path : String) : List (List Char) :=
  if path = "" then [] else path.toList.splitOn '/'

/-- The slash-separated parts of a template. -/
def templateParts (template : String) : ℕ := (template.toList.splitOn '/').length

theorem safe_renderedSegments {template : String} {tokens : TemplateTokens}
    (h : seg ∈ renderedSegments template tokens) : SafeSegment seg := by
  obtain ⟨hmem, hne⟩ := List.mem_filter.1 h
  obtain ⟨part, -, rfl⟩ := List.mem_map.1 hmem
  exact safe_sanitizeSegment _ (by simpa using hne)

theorem pathSegments_renderTemplate (template : String) (tokens : TemplateTokens) :
    pathSegments (renderTemplate template tokens) = renderedSegments template tokens := by
  have hsafe : ∀ seg ∈ renderedSegments template tokens, SafeSegment seg :=
    fun seg hseg => safe_renderedSegments hseg
  rw [pathSegments, renderTemplate]
  generalize renderedSegments template tokens = segs at hsafe
  cases segs with
  | nil => rfl
  | cons seg segs =>
    have hslash : ∀ s ∈ seg :: segs, '/' ∉ s := fun s hs hmem =>
      absurd ((hsafe s hs).clean '/' hmem).2 (by decide)
    rw [if_neg, String.toList_ofList, List.splitOn_intercalate _ hslash (List.cons_ne_nil _ _)]
    rw [String.ofList_eq_empty_iff, Segments.intercalate_cons]
    intro hnil
    exact (hsafe seg List.mem_cons_self).ne_nil (List.append_eq_nil_iff.1 hnil).1

theorem length_splitOn (c : Char) (text : List Char) :
    (text.splitOn c).length = text.count c + 1 := by
  induction text with
  | nil => rfl
  | cons d text ih =>
    rw [List.splitOn_cons_eq_if_modifyHead, List.count_cons]
    split_ifs with hd
    · rw [List.length_cons, ih]
    · rw [List.length_modifyHead, ih]

/-! ### Slashes from the template -/

theorem innerText_eq {nested : Bool} {inner rest : List Char}
    (h : innerText nested text = some (inner, rest)) : text = inner ++ '\x7d' :: rest := by
  induction text generalizing nested inner with
  | nil => cases h
  | cons c text ih =>
    have hcons : ∀ {b : Bool}, (innerText b text).map (fun found => (c :: found.1, found.2)) =
        some (inner, rest) → c :: text = inner ++ '\x7d' :: rest := by
      intro b h
      obtain ⟨⟨inner', rest'⟩, hfound, heq⟩ := Option.map_eq_some_iff.1 h
      cases heq
      rw [ih hfound, List.cons_append]
    rw [innerText] at h
    split_ifs at h with hopen hnested hclose hnested
    · exact hcons h
    · exact hcons h
    · cases h
      rw [hclose]
      rfl
    · exact hcons h

theorem conditional_eq {inner name rest : List Char} (h : conditional text = some ((name, inner), rest)) :
    text = '\x7b' :: (name ++ '?' :: (inner ++ '\x7d' :: rest)) := by
  unfold conditional at h
  split at h
  · split at h
    · rename_i text c name' more hname hmore
      obtain ⟨⟨inner', rest'⟩, hfound, heq⟩ := Option.map_eq_some_iff.1 h
      cases heq
      rw [← innerText_eq hfound, ← hname, ← hmore, List.takeWhile_append_dropWhile]
    · cases h
  · cases h

theorem consumes_conditional : Consumes conditional := by
  rintro text ⟨name, inner⟩ rest h
  refine ⟨'\x7b' :: (name ++ '?' :: (inner ++ ['\x7d'])), List.cons_ne_nil _ _, ?_⟩
  rw [conditional_eq h]
  simp

theorem token_eq {t : Token} {rest : List Char} (h : token text = some (t, rest)) :
    ∃ front, front ≠ [] ∧ text = front ++ rest := by
  unfold token at h
  split at h
  · rename_i text
    have htext := List.takeWhile_append_dropWhile (p := isNameChar) (l := text)
    split at h
    · rename_i c name rest' hname hrest
      cases h
      rw [hname, hrest] at htext
      exact ⟨'\x7b' :: (c :: name ++ ['\x7d']), List.cons_ne_nil _ _, by rw [← htext]; simp⟩
    · rename_i c name more hname hmore
      have hdigits := List.takeWhile_append_dropWhile (p := Char.isDigit) (l := more)
      split at h
      · rename_i d digits rest' hd hrest
        cases h
        rw [hname, hmore] at htext
        rw [hd, hrest] at hdigits
        exact ⟨'\x7b' :: (c :: name ++ ':' :: (d :: digits ++ ['\x7d'])), List.cons_ne_nil _ _, by
          rw [← htext, ← hdigits]; simp⟩
      · cases h
    · cases h
  · cases h

theorem consumes_token : Consumes token := fun _ _ _ h => token_eq h

/-- A part that is left out takes its slashes with it. -/
theorem count_expandConditionals (present : String → Bool) (template : List Char) :
    (expandConditionals present template).count '/' ≤ template.count '/' := by
  refine count_replaceAll_le '/' (fun part => part.2.count '/') consumes_conditional ?_ ?_
  · rintro text ⟨name, inner⟩ rest h
    rw [conditional_eq h]
    simp [List.count_append]
  · rintro ⟨name, inner⟩ -
    dsimp only
    split_ifs
    · exact le_rfl
    · exact Nat.zero_le _

/-- The names of the tokens a text pads. -/
def paddedNames (text : List Char) : List String :=
  ((found token text).filter (·.width.isSome)).map Token.name

variable {template : String} {tokens : TemplateTokens}

theorem count_substitute (t : Token)
    (h : t.width.isSome = true → ∀ value ∈ tokens t.name, '/' ∉ value.toList) :
    (substitute tokens t).count '/' = 0 := by
  rw [List.count_eq_zero, substitute]
  cases hvalue : tokens t.name with
  | none => exact List.not_mem_nil
  | some value =>
    dsimp only
    split_ifs
    · exact List.not_mem_nil
    · cases hwidth : t.width with
      | none =>
        intro hmem
        obtain ⟨c, -, hc⟩ := List.mem_map.1 hmem
        split_ifs at hc with hslash
        · cases hc
        · exact hslash (by simp [hc])
      | some width =>
        intro hmem
        rcases List.mem_append.1 hmem with hmem | hmem
        · exact absurd (List.eq_of_mem_replicate hmem) (by decide)
        · exact h (by rw [hwidth]; rfl) value hvalue hmem

theorem length_renderedSegments_le
    (h : ∀ name ∈ paddedNames (expandConditionals (present tokens) template.toList),
      ∀ value ∈ tokens name, '/' ∉ value.toList) :
    (renderedSegments template tokens).length ≤ templateParts template := by
  have hfilled : (filledIn template tokens).count '/' ≤ template.toList.count '/' := by
    refine le_trans ?_ (count_expandConditionals (present tokens) template.toList)
    refine count_replaceAll_le '/' (fun _ => 0) consumes_token ?_ fun t ht => ?_
    · intro text t rest hmatch
      obtain ⟨front, -, rfl⟩ := token_eq hmatch
      simp [List.count_append]
    · refine (count_substitute t fun hwidth value hvalue => ?_).le
      exact h t.name (List.mem_map_of_mem (List.mem_filter.2 ⟨ht, hwidth⟩)) value hvalue
  calc (renderedSegments template tokens).length
      ≤ ((filledIn template tokens).splitOn '/').length := by
        refine (List.length_filter_le _ _).trans ?_
        rw [List.length_map]
    _ ≤ templateParts template := by
        rw [templateParts, length_splitOn, length_splitOn]
        omega

/-- A value of so many directories. -/
def nested (k : ℕ) : String := .ofList ('/' :: (['/'].intercalate (List.replicate k ['a']) ++ ['/']))

theorem nested_ne_empty (k : ℕ) : nested k ≠ "" := fun h =>
  absurd (String.ofList_eq_empty_iff.1 h) (List.cons_ne_nil _ _)

theorem splitOn_nested {k : ℕ} (hk : k ≠ 0) (front rest : List Char) :
    ∃ before after, (front ++ ((nested k).toList ++ rest)).splitOn '/' =
      before ++ (List.replicate k ['a'] ++ after) := by
  have hsplit : (['/'].intercalate (List.replicate k ['a'])).splitOn '/' = List.replicate k ['a'] :=
    List.splitOn_intercalate '/' (by simp [List.mem_replicate]) (by simpa using hk)
  refine ⟨front.splitOn '/', rest.splitOn '/', ?_⟩
  rw [nested, String.toList_ofList, List.cons_append, List.append_assoc, List.singleton_append,
    List.splitOn_append_cons_self, List.splitOn_append_cons_self, hsplit]

theorem le_length_renderedSegments {k : ℕ} (hk : k ≠ 0) {t : Token} {width : ℕ}
    (ht : t ∈ found token (expandConditionals (present tokens) template.toList))
    (hwidth : t.width = some width) (hvalue : tokens t.name = some (nested k)) :
    k ≤ (renderedSegments template tokens).length := by
  obtain ⟨front, rest, hfilled⟩ := exists_of_mem_found (substitute tokens) ht
  have hsubstitute : substitute tokens t = pad (nested k) width := by
    simp [substitute, hvalue, hwidth, nested_ne_empty]
  rw [hsubstitute, pad, List.append_assoc, ← List.append_assoc] at hfilled
  obtain ⟨before, after, hsplit⟩ := splitOn_nested hk
    (front ++ List.replicate (width - (Library.EcmaScript.Runtime.codeUnits (nested k)).length) '0') rest
  have ha : sanitizeSegment (tidySeparators ['a']) = ['a'] := by decide
  rw [renderedSegments, filledIn, hfilled, hsplit, List.map_append, List.map_append,
    List.filter_append, List.filter_append, List.map_replicate, ha, List.length_append,
    List.length_append, List.filter_replicate_of_pos (by decide), List.length_replicate]
  omega

/-- Where a template that may be rendered pads a token, a value with slashes makes directories;
otherwise there are no more segments than the template has, nor with values whose padded ones have no
slash. Every segment is safe in any case. -/
theorem renderTemplate_segments (template : String) (carries : String → Prop) :
    (∀ tokens, ∀ seg ∈ pathSegments (renderTemplate template tokens), SafeSegment seg) ∧
      (∀ tokens : TemplateTokens, (∀ name ∈ paddedNames (expandConditionals (present tokens) template.toList),
          ∀ value ∈ tokens name, '/' ∉ value.toList) →
        (pathSegments (renderTemplate template tokens)).length ≤ templateParts template) ∧
      ((∀ tokens : TemplateTokens,
          (∀ name value, tokens name = some value → '/' ∈ value.toList → carries name) →
            (pathSegments (renderTemplate template tokens)).length ≤ templateParts template) ↔
        ∀ present, ∀ name ∈ paddedNames (expandConditionals present template.toList),
          present name = true → ¬carries name) := by
  refine ⟨fun tokens seg hseg => ?_, fun tokens h => ?_, fun h => ?_, fun h => ?_⟩
  · rw [pathSegments_renderTemplate] at hseg
    exact safe_renderedSegments hseg
  · rw [pathSegments_renderTemplate]
    exact length_renderedSegments_le h
  · rintro shown name hname hshown hcarries
    obtain ⟨t, ht, rfl⟩ := List.mem_map.1 hname
    obtain ⟨ht, hpadded⟩ := List.mem_filter.1 ht
    obtain ⟨width, hwidth⟩ := Option.isSome_iff_exists.1 hpadded
    -- Values as the parts that are rendered ask for them, the padded one full of slashes.
    let tokens : TemplateTokens := fun n =>
      if shown n then some (if n = t.name then nested (templateParts template + 1) else "a") else none
    have hvalue : tokens t.name = some (nested (templateParts template + 1)) := by
      simp only [tokens, if_pos hshown, if_true]
    have hpresent : present tokens = shown := by
      funext n
      by_cases hn : shown n = true
      · by_cases heq : n = t.name
        · simp [present, tokens, heq, hshown, nested_ne_empty]
        · simp [present, tokens, hn, heq]
      · simp [present, tokens, hn]
    have hle := h tokens (fun n value hsome hslash => ?_)
    · rw [pathSegments_renderTemplate] at hle
      have hge := le_length_renderedSegments (Nat.succ_ne_zero _) (hpresent ▸ ht) hwidth hvalue
      omega
    · by_cases heq : n = t.name
      · exact heq ▸ hcarries
      · have hplain : value = "a" := by
          simp only [tokens, heq, if_false] at hsome
          split_ifs at hsome
          exact (Option.some.inj hsome).symm
        rw [hplain] at hslash
        exact absurd hslash (by decide)
  · intro tokens hcarries
    rw [pathSegments_renderTemplate]
    refine length_renderedSegments_le fun name hname value hvalue hslash => ?_
    refine h _ name hname ?_ (hcarries name value hvalue hslash)
    have hne : value ≠ "" := by
      rintro rfl
      exact absurd hslash (by decide)
    rw [present, Option.mem_def.1 hvalue, Option.any_some]
    exact decide_eq_true hne

/-- A track number as some tools write it. -/
def trackOfTwelve : TemplateTokens := fun name => if name = "Track" then some "1/12" else none

theorem padded_track_nested :
    (pathSegments (renderTemplate "\x7bTrack:00\x7d" trackOfTwelve)).length = 2 ∧
      templateParts "\x7bTrack:00\x7d" = 1 := by
  decide +kernel

end UltraTorrent.MediaRenamer.RenderedSegments
