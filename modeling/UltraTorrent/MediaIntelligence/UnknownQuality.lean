import UltraTorrent.MediaIntelligence.QualityCompliance

/-! What was never measured is no failure: a rung is failed where something measured disagrees with it,
and less measuring makes fewer rungs fail. A ladder still comes out below preference when one of its
rungs fails and another one cannot be judged. -/
namespace UltraTorrent.MediaIntelligence.UnknownQuality

open Library Library.EcmaScript QualityCompliance

variable {rt : Runtime} {rung : NormalizedPreferenceRung} {owned : NormalizedMediaQuality}

/-! ### What disagrees -/

/-- A column was measured and is not what is asked for. -/
def Differs (required actual : Option String) (agrees : String → String → Bool) : Prop :=
  ∃ want ∈ truthy required, ∃ found ∈ truthy actual, agrees found want = false

def Disagrees (rt : Runtime) (rung : NormalizedPreferenceRung) (owned : NormalizedMediaQuality) : Prop :=
  Differs rung.resolution owned.resolutionClass
      (fun actual want => compact rt actual = resolutionTermToClass rt want) ∨
    Differs rung.codec owned.videoCodec (codecEquivalent rt) ∨
    (∃ term ∈ rung.requiredTerms, evaluateTerm rt term owned = some false) ∨
    (∃ term ∈ rung.excludedTerms, evaluateTerm rt term owned = some true) ∨
    ∃ size ∈ owned.sizeBytes, (∃ most ∈ rung.maxBytes, most < size) ∨ ∃ least ∈ rung.minBytes, size < least

theorem ofBool_eq_fail (b : Bool) : ofBool b = .fail ↔ b = false := by
  cases b <;> simp [ofBool]

theorem fail_columnDims {dimension : MediaQualityDimension} {required actual : Option String}
    {agrees : String → String → Bool} :
    (∃ d ∈ columnDims dimension required actual agrees, d.result = .fail) ↔
      Differs required actual agrees := by
  unfold columnDims Differs
  cases truthy required with
  | none => simp
  | some want => cases truthy actual <;> simp [ofBool_eq_fail]

theorem not_fail_lostDims {dimension : MediaQualityDimension} {required : Option String}
    {reason : NotEvaluableReason} : ¬ ∃ d ∈ lostDims dimension required reason, d.result = .fail := by
  unfold lostDims
  cases truthy required <;> simp

theorem fail_termDim {label : String} {wanted : Bool} {term : String} :
    (termDim rt label wanted owned term).result = .fail ↔ evaluateTerm rt term owned = some !wanted := by
  unfold termDim
  cases evaluateTerm rt term owned with
  | none => simp
  | some settled => cases settled <;> cases wanted <;> simp [ofBool_eq_fail]

theorem fail_sizeDims : (∃ d ∈ sizeDims rt rung owned, d.result = .fail) ↔
    ∃ size ∈ owned.sizeBytes, (∃ most ∈ rung.maxBytes, most < size) ∨ ∃ least ∈ rung.minBytes, size < least := by
  unfold sizeDims
  cases rung.maxBytes <;> cases rung.minBytes <;> cases owned.sizeBytes <;>
    simp [ofBool_eq_fail, imp_iff_not_or]

/-- A rung fails exactly where something measured disagrees with it. -/
theorem fail_rungDims : (∃ d ∈ rungDims rt rung owned, d.result = .fail) ↔ Disagrees rt rung owned := by
  have hterms : ∀ label wanted (terms : List String),
      (∃ d ∈ terms.map (termDim rt label wanted owned), d.result = .fail) ↔
        ∃ term ∈ terms, evaluateTerm rt term owned = some !wanted := fun label wanted terms => by
    simp only [List.mem_map, exists_exists_and_eq_and, fail_termDim]
  unfold rungDims Disagrees
  simp only [List.mem_append, or_and_right, exists_or, fail_columnDims, not_fail_lostDims, hterms,
    fail_sizeDims, false_or, Bool.not_true, Bool.not_false, or_assoc]

/-- The rung has constraints, and nothing that was measured says anything about them. -/
def Blind (rt : Runtime) (rung : NormalizedPreferenceRung) (owned : NormalizedMediaQuality) : Prop :=
  (evaluateRung rt rung owned).blind = true

instance : Decidable (Blind rt rung owned) := inferInstanceAs (Decidable (_ = _))

theorem any_fail : ((rungDims rt rung owned).any (·.result = .fail)) = true ↔ Disagrees rt rung owned := by
  rw [← fail_rungDims]
  simp

instance : Decidable (Disagrees rt rung owned) := decidable_of_iff _ any_fail

theorem matched_iff : (evaluateRung rt rung owned).matched = true ↔ ¬ Disagrees rt rung owned := by
  rw [← any_fail]
  simp [evaluateRung]

theorem Blind.not_disagrees (h : Blind rt rung owned) : ¬ Disagrees rt rung owned := by
  rw [Blind, evaluateRung] at h
  simp only [Bool.and_eq_true, Bool.not_eq_true'] at h
  rw [← any_fail, h.2]
  exact Bool.false_ne_true

/-- A rung without constraints is not blind, and nothing disagrees with it. -/
theorem matched_of_isEmpty (h : (evaluateRung rt rung owned).dimensions.isEmpty = true) :
    ¬ Blind rt rung owned ∧ ¬ Disagrees rt rung owned := by
  have hnil : rungDims rt rung owned = [] := List.isEmpty_iff.1 h
  refine ⟨?_, fun hdisagrees => ?_⟩
  · simp [Blind, evaluateRung, hnil]
  · rw [← fail_rungDims, hnil] at hdisagrees
    simp at hdisagrees

/-! ### The answer -/

variable {ladder : NormalizedPreferenceLadder}

/-- The rung is met as far as it can be judged. -/
def Meets (rt : Runtime) (rung : NormalizedPreferenceRung) (owned : NormalizedMediaQuality) : Prop :=
  ¬ Disagrees rt rung owned ∧ ¬ Blind rt rung owned

instance : Decidable (Meets rt rung owned) := inferInstanceAs (Decidable (_ ∧ _))

/-- Below preference: no rung is met, and not all of them are blind. -/
theorem belowPreference_iff :
    (evaluateQualityCompliance rt (some owned) ladder).status = .belowPreference ↔
      (∀ rung ∈ ladder.rungs, ¬ Meets rt rung owned) ∧ ∃ rung ∈ ladder.rungs, Disagrees rt rung owned := by
  have hfind : ((ladder.rungs.map fun r => evaluateRung rt r owned).find? fun o => o.matched && !o.blind) = none ↔
      ∀ rung ∈ ladder.rungs, ¬ Meets rt rung owned := by
    simp only [List.find?_eq_none, List.forall_mem_map, Meets, ← matched_iff, Blind]
    simp
  unfold evaluateQualityCompliance
  by_cases hempty : ladder.rungs = []
  · simp [hempty]
  rw [if_neg (by simpa using hempty)]
  dsimp only
  cases hfirst : (ladder.rungs.map fun r => evaluateRung rt r owned).find? fun o => o.matched && !o.blind with
  | some first =>
    have hmeets := mt hfind.2 (by rw [hfirst]; exact nofun)
    dsimp only
    split_ifs <;> simp [hmeets]
  | none =>
    have hnone := hfind.1 hfirst
    dsimp only
    by_cases hall : ((ladder.rungs.map fun r => evaluateRung rt r owned).all
        fun o => o.blind || o.dimensions.isEmpty) = true
    · rw [if_pos hall]
      refine iff_of_false nofun ?_
      rintro ⟨-, rung, hrung, hdisagrees⟩
      rw [List.all_map, List.all_eq_true] at hall
      rcases Bool.or_eq_true_iff.1 (hall rung hrung) with hblind | hempty
      · exact Blind.not_disagrees hblind hdisagrees
      · exact (matched_of_isEmpty hempty).2 hdisagrees
    · rw [if_neg hall]
      refine iff_of_true rfl ⟨hnone, ?_⟩
      simp only [List.all_map, List.all_eq_true, not_forall] at hall
      obtain ⟨rung, hrung, hjudged⟩ := hall
      refine ⟨rung, hrung, ?_⟩
      by_contra hdisagrees
      refine hnone rung hrung ⟨hdisagrees, fun hblind => hjudged ?_⟩
      exact Bool.or_eq_true_iff.2 (.inl hblind)

/-! ### Measuring less -/

/-- A measured field. -/
inductive Field where
  | resolutionClass
  | resolutionOrdinal
  | width
  | height
  | videoCodec
  | videoBitDepth
  | hdr
  | hdrFormat
  | audioCodec
  | audioChannels
  | bitrateKbps
  | frameRate
  | durationSec
  | container
  | sizeBytes
  deriving DecidableEq

/-- The record with the field set to `null`. -/
def erase (owned : NormalizedMediaQuality) : Field → NormalizedMediaQuality
  | .resolutionClass => { owned with resolutionClass := none }
  | .resolutionOrdinal => { owned with resolutionOrdinal := none }
  | .width => { owned with width := none }
  | .height => { owned with height := none }
  | .videoCodec => { owned with videoCodec := none }
  | .videoBitDepth => { owned with videoBitDepth := none }
  | .hdr => { owned with hdr := none }
  | .hdrFormat => { owned with hdrFormat := none }
  | .audioCodec => { owned with audioCodec := none }
  | .audioChannels => { owned with audioChannels := none }
  | .bitrateKbps => { owned with bitrateKbps := none }
  | .frameRate => { owned with frameRate := none }
  | .durationSec => { owned with durationSec := none }
  | .container => { owned with container := none }
  | .sizeBytes => { owned with sizeBytes := none }

/-- Of what the evaluator reads, no more is known than before, and nothing else. -/
structure Forgets (less owned : NormalizedMediaQuality) : Prop where
  resolutionClass : less.resolutionClass = none ∨ less.resolutionClass = owned.resolutionClass
  videoCodec : less.videoCodec = none ∨ less.videoCodec = owned.videoCodec
  videoBitDepth : less.videoBitDepth = none ∨ less.videoBitDepth = owned.videoBitDepth
  hdr : less.hdr = none ∨ less.hdr = owned.hdr
  sizeBytes : less.sizeBytes = none ∨ less.sizeBytes = owned.sizeBytes

theorem forgets_erase (owned : NormalizedMediaQuality) (field : Field) : Forgets (erase owned field) owned := by
  cases field <;> exact ⟨by simp [erase], by simp [erase], by simp [erase], by simp [erase], by simp [erase]⟩

variable {less : NormalizedMediaQuality}

theorem Forgets.evaluateTerm (h : Forgets less owned) (rt : Runtime) (term : String) :
    evaluateTerm rt term less = none ∨ evaluateTerm rt term less = evaluateTerm rt term owned := by
  unfold QualityCompliance.evaluateTerm
  extract_lets t bare want
  split_ifs
  · exact h.videoBitDepth.imp (fun hnone => by rw [hnone]; rfl) fun hsame => by rw [hsame]
  · exact h.hdr
  · exact h.resolutionClass.imp (fun hnone => by rw [hnone]; rfl) fun hsame => by rw [hsame]
  · exact h.videoCodec.imp (fun hnone => by rw [hnone]; rfl) fun hsame => by rw [hsame]
  · exact .inl rfl

theorem Differs.of_forgets {required actual actual' : Option String} {agrees : String → String → Bool}
    (h : actual' = none ∨ actual' = actual) (hdiffers : Differs required actual' agrees) :
    Differs required actual agrees := by
  rcases h with rfl | rfl
  · obtain ⟨_, _, _, hfound, -⟩ := hdiffers
    cases hfound
  · exact hdiffers

/-- Where less is known, less disagrees. -/
theorem Disagrees.of_forgets (h : Forgets less owned) (hless : Disagrees rt rung less) :
    Disagrees rt rung owned := by
  have hterm : ∀ {term settled}, evaluateTerm rt term less = some settled →
      evaluateTerm rt term owned = some settled := by
    intro term settled hsettled
    rcases h.evaluateTerm rt term with hnone | hsame
    · exact nomatch hnone.symm.trans hsettled
    · exact hsame.symm.trans hsettled
  rcases hless with hres | hcodec | ⟨term, hmem, hfalse⟩ | ⟨term, hmem, htrue⟩ | ⟨size, hsize, hout⟩
  · exact .inl (hres.of_forgets h.resolutionClass)
  · exact .inr (.inl (hcodec.of_forgets h.videoCodec))
  · exact .inr (.inr (.inl ⟨term, hmem, hterm hfalse⟩))
  · exact .inr (.inr (.inr (.inl ⟨term, hmem, hterm htrue⟩)))
  · refine .inr (.inr (.inr (.inr ⟨size, ?_, hout⟩)))
    rcases h.sizeBytes with hnone | hsame
    · exact nomatch hnone.symm.trans hsize
    · exact hsame.symm.trans hsize

/-! ### Ladders that come apart -/

/-- Some rungs disagree with what was measured, some cannot be judged at all, and none is met. -/
def Torn (rt : Runtime) (ladder : NormalizedPreferenceLadder) (owned : NormalizedMediaQuality) : Prop :=
  (∀ rung ∈ ladder.rungs, ¬ Meets rt rung owned) ∧ (∃ rung ∈ ladder.rungs, Disagrees rt rung owned) ∧
    ∃ rung ∈ ladder.rungs, Blind rt rung owned

instance : Decidable (Torn rt ladder owned) := inferInstanceAs (Decidable (_ ∧ _))

/-- Below preference means that every rung was failed, and no field that goes unmeasured brings that
about. -/
structure UnknownIsNotFailure (rt : Runtime) (ladder : NormalizedPreferenceLadder)
    (owned : Option NormalizedMediaQuality) : Prop where
  failed : (evaluateQualityCompliance rt owned ladder).status = .belowPreference →
    ∀ rung ∈ ladder.rungs, ∃ q ∈ owned, Disagrees rt rung q
  erased : ∀ field, (evaluateQualityCompliance rt owned ladder).status ≠ .belowPreference →
    (evaluateQualityCompliance rt (owned.map (erase · field)) ladder).status ≠ .belowPreference

theorem status_none : (evaluateQualityCompliance rt none ladder).status ≠ .belowPreference := by
  unfold evaluateQualityCompliance
  split_ifs <;> nofun

theorem all_disagree (h : ∀ rung ∈ ladder.rungs, ¬ Meets rt rung owned)
    (hblind : ¬ ∃ rung ∈ ladder.rungs, Blind rt rung owned) :
    ∀ rung ∈ ladder.rungs, Disagrees rt rung owned := by
  intro rung hrung
  by_contra hdisagrees
  exact h rung hrung ⟨hdisagrees, fun hb => hblind ⟨rung, hrung, hb⟩⟩

/-- What was not measured is taken for a failure exactly where a ladder comes apart, as it is measured,
or when a field goes unmeasured while a rung is met. -/
theorem unknownIsNotFailure_iff (rt : Runtime) (ladder : NormalizedPreferenceLadder)
    (owned : Option NormalizedMediaQuality) : UnknownIsNotFailure rt ladder owned ↔
      ∀ q ∈ owned, ¬ Torn rt ladder q ∧
        ∀ field, Torn rt ladder (erase q field) → ∀ rung ∈ ladder.rungs, ¬ Meets rt rung q := by
  cases owned with
  | none =>
    exact iff_of_true ⟨fun h => absurd h status_none, fun _ _ => status_none⟩ (by simp)
  | some owned =>
    simp only [Option.mem_some_iff, forall_eq']
    constructor
    · intro h
      refine ⟨fun ⟨hmeets, hfails, rung, hrung, hblind⟩ => ?_, fun field ⟨hmeets, hfails, _⟩ rung hrung hmet => ?_⟩
      · obtain ⟨q, hq, hdisagrees⟩ := h.failed (belowPreference_iff.2 ⟨hmeets, hfails⟩) rung hrung
        rw [Option.mem_some_iff] at hq
        exact hblind.not_disagrees (hq ▸ hdisagrees)
      · refine h.erased field (fun hbelow => ?_) (belowPreference_iff.2 ⟨hmeets, hfails⟩)
        exact (belowPreference_iff.1 hbelow).1 rung hrung hmet
    · rintro ⟨htorn, herased⟩
      refine ⟨fun hbelow rung hrung => ⟨owned, rfl, ?_⟩, fun field hnot hbelow => ?_⟩
      · obtain ⟨hmeets, hfails⟩ := belowPreference_iff.1 hbelow
        exact all_disagree hmeets (fun hblind => htorn ⟨hmeets, hfails, hblind⟩) rung hrung
      · obtain ⟨hmeets, rung, hrung, hdisagrees⟩ := belowPreference_iff.1 hbelow
        have hforgets := forgets_erase owned field
        refine hnot (belowPreference_iff.2 ⟨?_, rung, hrung, hdisagrees.of_forgets hforgets⟩)
        by_cases hblind : ∃ rung ∈ ladder.rungs, Blind rt rung (erase owned field)
        · exact herased field ⟨hmeets, ⟨rung, hrung, hdisagrees⟩, hblind⟩
        · exact fun rung hrung hmet =>
            hmet.1 ((all_disagree hmeets hblind rung hrung).of_forgets hforgets)

/-- A rung that asks for a source, and one that asks for more pixels than there are. -/
def sourceOrMore : NormalizedPreferenceLadder where
  source := .globalLadder
  sourceLabel := none
  rungs := [{ name := "web", rung := 0, source := some "WEB-DL" },
    { name := "4k", rung := 1, resolution := some "2160p" }]

/-- The first rung cannot be judged, and the answer is below preference. -/
theorem sourceOrMore_failed :
    ¬ UnknownIsNotFailure .ascii sourceOrMore (some { resolutionClass := some "1080p" }) := by
  intro h
  obtain ⟨q, hq, hdisagrees⟩ := h.failed (by decide +kernel) _ List.mem_cons_self
  rw [Option.mem_some_iff] at hq
  subst hq
  revert hdisagrees
  decide +kernel

end UltraTorrent.MediaIntelligence.UnknownQuality
