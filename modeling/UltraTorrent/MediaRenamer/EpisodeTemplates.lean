import UltraTorrent.MediaRenamer.EpisodeSegment
import UltraTorrent.MediaRenamer.Planner

/-! What the presets make of an episode: folders, of which the last is the season's, and a name that
says the season and the episode. -/
namespace UltraTorrent.MediaRenamer.EpisodeTemplates

open Library Library.Replacement
open EpisodeSegment Planner RenderTemplate

/-! ### The templates, piece by piece -/

def episodeTemplate (preset : Preset) (anime : Bool) : String :=
  if anime then (presetTemplates preset).anime else (presetTemplates preset).tv

/-- What stands between the show and the season. -/
def joint : Preset → String
  | .plex | .emby | .custom => " - "
  | .jellyfin | .kodi => " "

/-- What follows the episode. -/
def tail : Preset → Bool → List Char
  | .plex, false | .custom, false =>
    (optionalPart "episodeEnd" (" - E" ++ tok "episodeEnd:00")).toList ++ " - ".toList ++
      (tok "Episode Title").toList ++ dotExt.toList
  | .plex, true | .custom, true | .emby, _ => " - ".toList ++ (tok "Episode Title").toList ++ dotExt.toList
  | .jellyfin, _ => " ".toList ++ (tok "Episode Title").toList ++ dotExt.toList
  | .kodi, _ => dotExt.toList

theorem toList_tok (name : String) : (tok name).toList = '\x7b' :: (name.toList ++ ['\x7d']) := by
  simp [tok]

theorem toList_optionalPart (name part : String) :
    (optionalPart name part).toList = '\x7b' :: (name.toList ++ '?' :: (part.toList ++ ['\x7d'])) := by
  simp [optionalPart]

theorem toList_episodeTemplate (preset : Preset) (anime : Bool) :
    (episodeTemplate preset anime).toList =
      (tok "Series Title").toList ++ (optionalPart "year" (" (" ++ tok "year" ++ ")")).toList ++
        "/Season ".toList ++ (tok "season").toList ++ "/".toList ++ (tok "Series Title").toList ++
        (joint preset).toList ++ ("S".toList ++ (tok "season:00").toList ++ "E".toList ++
          (tok "episode:00").toList) ++ tail preset anime := by
  have hname : ∀ j t, (episodeName j t).toList =
      (tok "Series Title").toList ++ (optionalPart "year" (" (" ++ tok "year" ++ ")")).toList ++
        "/Season ".toList ++ (tok "season").toList ++ "/".toList ++ (tok "Series Title").toList ++
        j.toList ++ ("S".toList ++ (tok "season:00").toList ++ "E".toList ++
          (tok "episode:00").toList) ++ t.toList := by
    intro j t
    rw [episodeName, showFolders, seasonEpisode]
    simp only [String.toList_append]
  cases preset <;> cases anime <;> refine (hname _ _).trans ?_ <;> rw [joint, tail] <;>
    simp only [String.toList_append]

/-- Which parts of the templates are optional. -/
theorem optional_names (preset : Preset) (anime : Bool) :
    ((found conditional (episodeTemplate preset anime).toList).all fun part =>
      String.ofList part.1 = "year" || String.ofList part.1 = "episodeEnd") = true := by
  rw [toList_episodeTemplate]
  simp only [toList_tok, toList_optionalPart]
  cases preset <;> cases anime <;> decide +kernel

/-- A template with its optional parts filled in. -/
def expanded (preset : Preset) (anime year ends : Bool) : List Char :=
  expandConditionals (fun name => (name = "year" && year) || (name = "episodeEnd" && ends))
    (episodeTemplate preset anime).toList

def literal (text : String) : List (Char ⊕ Token) := text.toList.map .inl

def value (name : String) : List (Char ⊕ Token) := [.inr ⟨name.toList, none⟩]

def padded (name : String) : List (Char ⊕ Token) := [.inr ⟨name.toList, some 2⟩]

/-- The show's folder and the season's. -/
def folderPieces (year : Bool) : List (Char ⊕ Token) :=
  value "Series Title" ++ (if year then literal " (" ++ value "year" ++ literal ")" else []) ++
    literal "/Season " ++ value "season"

def namePieces (preset : Preset) : List (Char ⊕ Token) :=
  literal "/" ++ value "Series Title" ++ literal (joint preset) ++ literal "S" ++ padded "season" ++
    literal "E" ++ padded "episode"

/-- What brings no slash into a name: of the padded values only the last episode. -/
def noSlash : Char ⊕ Token → Bool :=
  Sum.elim (fun c => c ≠ '/') fun t => t.width = none || t.name = "episodeEnd"

/-- The name goes on behind the episode with a space or a dot, and without a slash. -/
structure IsTail (pieces : List (Char ⊕ Token)) : Prop where
  head : pieces.head? = some (.inl ' ') ∨ pieces.head? = some (.inl '.')
  noSlash : pieces.all noSlash = true

instance (pieces : List (Char ⊕ Token)) : Decidable (IsTail pieces) :=
  decidable_of_iff ((pieces.head? = some (.inl ' ') ∨ pieces.head? = some (.inl '.')) ∧
    pieces.all noSlash = true) ⟨fun h => ⟨h.1, h.2⟩, fun h => ⟨h.head, h.noSlash⟩⟩

theorem pieces_checked (preset : Preset) (anime year ends : Bool) :
    folderPieces year ++ namePieces preset <+: pieces token 0 (expanded preset anime year ends) ∧
      IsTail ((pieces token 0 (expanded preset anime year ends)).drop
        (folderPieces year ++ namePieces preset).length) := by
  rw [expanded, toList_episodeTemplate]
  simp only [toList_tok, toList_optionalPart]
  revert year ends
  cases preset <;> cases anime <;> decide +kernel

variable {tokens : TemplateTokens}

def fill (tokens : TemplateTokens) (pieces : List (Char ⊕ Token)) : List Char :=
  pieces.flatMap (Sum.elim (fun c => [c]) (substitute tokens))

theorem fill_append (ps qs : List (Char ⊕ Token)) : fill tokens (ps ++ qs) = fill tokens ps ++ fill tokens qs :=
  List.flatMap_append

theorem fill_literal (text : String) : fill tokens (literal text) = text.toList := by
  rw [fill, literal, List.flatMap_map]
  exact List.flatMap_singleton' _

theorem fill_value {name : String} (hname : WhiteSpace.trim name = name) :
    fill tokens (value name) = neutralizeSeparators (((tokens name).getD "").toList) := by
  have htoken : (⟨name.toList, none⟩ : Token).name = name := hname
  rw [fill, value, List.flatMap_singleton, Sum.elim_inr, substitute, htoken]
  cases tokens name with
  | none => rfl
  | some text =>
    dsimp only [Option.getD_some]
    split_ifs with hempty
    · rw [hempty]
      rfl
    · rfl

theorem fill_padded {name : String} {n : ℕ} (hname : WhiteSpace.trim name = name)
    (hvalue : tokens name = some (toString n)) : fill tokens (padded name) = pad (toString n) 2 := by
  have htoken : (⟨name.toList, some 2⟩ : Token).name = name := hname
  have hne : toString n ≠ "" := by
    intro hempty
    have hnil := congrArg String.toList hempty
    simp at hnil
  rw [fill, padded, List.flatMap_singleton, Sum.elim_inr, substitute, htoken, hvalue]
  simp only [if_neg hne]

theorem expandConditionals_eq (present : String → Bool) (preset : Preset) (anime : Bool) :
    expandConditionals present (episodeTemplate preset anime).toList =
      expanded preset anime (present "year") (present "episodeEnd") := by
  refine replaceAll_congr fun part hpart => ?_
  have hname := List.all_eq_true.1 (optional_names preset anime) part hpart
  rw [Bool.or_eq_true, decide_eq_true_eq, decide_eq_true_eq] at hname
  rcases hname with hname | hname <;> rw [hname] <;> simp

theorem IsTail.apart {rest : List (Char ⊕ Token)} (h : IsTail rest) : Apart (fill tokens rest) := by
  rcases h.head with hhead | hhead <;> obtain ⟨more, rfl⟩ := List.head?_eq_some_iff.1 hhead
  · exact apart_cons (.inl rfl)
  · exact apart_cons (.inr rfl)

/-- What a template becomes: the folders, the name up to the episode, and a tail. -/
theorem filledIn_eq (preset : Preset) (anime : Bool) (tokens : TemplateTokens) :
    ∃ year rest, IsTail rest ∧ filledIn (episodeTemplate preset anime) tokens =
      fill tokens (folderPieces year) ++ (fill tokens (namePieces preset) ++ fill tokens rest) := by
  obtain ⟨⟨rest, hrest⟩, htail⟩ :=
    pieces_checked preset anime (present tokens "year") (present tokens "episodeEnd")
  rw [← hrest, List.drop_left] at htail
  refine ⟨present tokens "year", rest, htail, ?_⟩
  rw [filledIn, expandConditionals_eq, replaceAll, ← hrest, ← fill, fill_append, fill_append,
    List.append_assoc]

/-! ### An episode's tokens -/

/-- The tokens of an episode of a series. -/
structure OfEpisode (tokens : TemplateTokens) (series : String) (season episode : ℕ) : Prop where
  series : tokens "Series Title" = some series
  season : tokens "season" = some (toString season)
  episode : tokens "episode" = some (toString episode)
  last : ∀ text ∈ tokens "episodeEnd", '/' ∉ text.toList

variable {series : String} {season episode : ℕ} {preset : Preset}

theorem no_slash_neutralize (text : List Char) : '/' ∉ neutralizeSeparators text := by
  intro hmem
  obtain ⟨c, -, hc⟩ := List.mem_map.1 hmem
  split_ifs at hc with hseparator
  · exact absurd hc (by decide)
  · rw [hc] at hseparator
    simp at hseparator

theorem no_slash_substitute {t : Token} (h : OfEpisode tokens series season episode)
    (ht : t.width = none ∨ t.name = "episodeEnd") : '/' ∉ substitute tokens t := by
  unfold substitute
  split
  · simp
  · rename_i text htext
    split_ifs
    · simp
    split
    · rename_i width hwidth
      have hlast := h.last text (by rwa [← ht.resolve_left (by simp [hwidth])])
      rw [pad, List.mem_append, not_or]
      refine ⟨fun hmem => ?_, hlast⟩
      exact absurd (List.eq_of_mem_replicate hmem) (by decide)
    · exact no_slash_neutralize _

theorem no_slash_fill {rest : List (Char ⊕ Token)} (h : OfEpisode tokens series season episode)
    (hrest : IsTail rest) : '/' ∉ fill tokens rest := by
  intro hmem
  obtain ⟨piece, hpiece, hslash⟩ := List.mem_flatMap.1 hmem
  have hno := List.all_eq_true.1 hrest.noSlash piece hpiece
  cases piece with
  | inl c =>
    obtain rfl := List.mem_singleton.1 hslash
    exact absurd hno (by decide)
  | inr t =>
    simp only [noSlash, Sum.elim_inr, Bool.or_eq_true, decide_eq_true_eq] at hno
    exact no_slash_substitute h hno hslash

/-- A name up to the space before its season. -/
def lead (preset : Preset) (series : String) : List Char :=
  neutralizeSeparators series.toList ++ (joint preset).toList.dropLast

theorem joint_eq (preset : Preset) : (joint preset).toList = (joint preset).toList.dropLast ++ [' '] := by
  cases preset <;> decide

theorem fill_namePieces (h : OfEpisode tokens series season episode) :
    fill tokens (namePieces preset) = '/' :: (lead preset series ++ ' ' :: 'S' :: numbers season episode) := by
  have hS : "S".toList = ['S'] := by decide
  have hE : "E".toList = ['E'] := by decide
  have hslash : "/".toList = ['/'] := by decide
  rw [namePieces, fill_append, fill_append, fill_append, fill_append, fill_append, fill_append, fill_literal,
    fill_literal, fill_literal, fill_literal, fill_value (by decide), h.series,
    fill_padded (by decide) h.season, fill_padded (by decide) h.episode, joint_eq, hS, hE, hslash]
  simp [lead, numbers]

theorem fill_folderPieces (h : OfEpisode tokens series season episode) (year : Bool) :
    ∃ above, fill tokens (folderPieces year) =
      above ++ '/' :: ("Season ".toList ++ neutralizeSeparators (toString season).toList) := by
  have hslash : "/Season ".toList = '/' :: "Season ".toList := by decide
  rw [folderPieces, fill_append, fill_append, fill_literal, fill_value (by decide), h.season, hslash,
    Option.getD_some, List.append_assoc, List.cons_append]
  exact ⟨_, rfl⟩

theorem no_slash_name {tail : List Char} (htail : '/' ∉ tail) :
    '/' ∉ lead preset series ++ ' ' :: 'S' :: (numbers season episode ++ tail) := by
  have hjoint : '/' ∉ (joint preset).toList.dropLast := by cases preset <;> decide
  have hnumbers : '/' ∉ numbers season episode := fun hmem =>
    absurd ((block_numbers season episode).solid '/' hmem) (by decide)
  simp [lead, no_slash_neutralize, hjoint, hnumbers, htail]

theorem renderedSegments_eq (template : String) (tokens : TemplateTokens) : renderedSegments template tokens =
    (((filledIn template tokens).splitOn '/').map segment).filter (· ≠ []) := rfl

theorem segment_seasonZero : segment "Season 0".toList = "Season 0".toList := by decide +kernel

def nameStart (preset : Preset) (series : String) (season episode : ℕ) : List Char :=
  segment (lead preset series ++ ' ' :: 'S' :: numbers season episode)

/-- The numbers stand behind a text that the series decides. -/
theorem nameStart_eq (preset : Preset) (series : String) :
    ∃ front, ∀ season episode, nameStart preset series season episode = front ++ 'S' :: numbers season episode ∧
      ∀ tail, Apart tail → segment (lead preset series ++ ' ' :: 'S' :: (numbers season episode ++ tail)) =
        nameStart preset series season episode ++ tailOf tail := by
  obtain ⟨front, hfront⟩ := segment_block (lead preset series)
  refine ⟨front, fun season episode => ?_⟩
  have hstart : nameStart preset series season episode = front ++ 'S' :: numbers season episode := by
    have hnil := hfront (numbers season episode) [] (block_numbers ..) apart_nil
    rwa [tailOf_nil, List.append_nil] at hnil
  refine ⟨hstart, fun tail htail => ?_⟩
  rw [hfront _ tail (block_numbers ..) htail, hstart, List.append_assoc, List.cons_append]

theorem renderedSegments_episode (anime : Bool) (h : OfEpisode tokens series season episode) :
    ∃ folders rest, Apart rest ∧ renderedSegments (episodeTemplate preset anime) tokens =
      folders ++ [nameStart preset series season episode ++ rest] ∧
        (season = 0 → ∃ above, folders = above ++ ["Season 0".toList]) := by
  obtain ⟨year, tail, htail, hfilled⟩ := filledIn_eq preset anime tokens
  obtain ⟨above, habove⟩ := fill_folderPieces h year
  obtain ⟨front, hfront⟩ := nameStart_eq preset series
  have hname : fill tokens (namePieces preset) ++ fill tokens tail =
      '/' :: (lead preset series ++ ' ' :: 'S' :: (numbers season episode ++ fill tokens tail)) := by
    rw [fill_namePieces h, List.cons_append, List.append_assoc, List.cons_append, List.cons_append]
  refine ⟨((fill tokens (folderPieces year)).splitOn '/' |>.map segment).filter (· ≠ []),
    tailOf (fill tokens tail), apart_tailOf htail.apart, ?_, fun hzero => ?_⟩
  · have hne : nameStart preset series season episode ≠ [] := by
      rw [(hfront season episode).1]
      simp
    rw [renderedSegments_eq, hfilled, hname, List.splitOn_append_cons_self,
      NodePath.splitOn_of_free (no_slash_name (no_slash_fill h htail)), List.map_append, List.filter_append,
      List.map_singleton, (hfront season episode).2 _ htail.apart, List.filter_cons_of_pos (by simp [hne]),
      List.filter_nil]
  · have hzeroText : "Season ".toList ++ neutralizeSeparators (toString 0).toList = "Season 0".toList := by
      decide
    rw [hzero, hzeroText] at habove
    have hsplit : "Season 0".toList.splitOn '/' = ["Season 0".toList] :=
      NodePath.splitOn_of_free (by decide)
    rw [habove, List.splitOn_append_cons_self, hsplit, List.map_append, List.filter_append,
      List.map_singleton, segment_seasonZero]
    exact ⟨_, rfl⟩

end UltraTorrent.MediaRenamer.EpisodeTemplates
