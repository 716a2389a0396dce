import UltraTorrent.Library.Replacement
import UltraTorrent.Library.Segments

/-! How a path is spelled in another space: a rule rewrites the prefix of a path, and inverted it takes
the path back. A root for a prefix is the exception: it ends in the slash that others leave to the rest. -/
namespace UltraTorrent.Intake.PathMapping

open Library.Replacement Library.Segments

abbrev Text := List Char

inductive PathSpace where
  | canonical
  | host
  | container
  | provider
  | mediaServer
  deriving DecidableEq

/-- One prefix rewrite, from the canonical spelling into a space. -/
structure PathMappingRule where
  id : String
  space : PathSpace
  fromPrefix : Text
  toPrefix : Text
  /-- `none` applies everywhere in the space. -/
  scopeId : Option String
  priority : ℤ
  enabled : Bool
  deriving DecidableEq

/-- No doubled slashes, and none at the end unless there is nothing else. -/
def normalizePrefix (p : Text) : Text :=
  let collapsed := collapse (· = '/') '/' p
  if 1 < collapsed.length ∧ collapsed.getLast? = some '/' then collapsed.dropLast else collapsed

/-- Segment by segment. -/
def isUnderPrefix (path start : Text) : Bool :=
  let p := normalizePrefix path
  let q := normalizePrefix start
  p = q || (if q = ['/'] then ['/'] else q ++ ['/']).isPrefixOf p

/-- The order of the rules that match: a scope of its own, then the priority, then the longer prefix. -/
def compareRules (a b : PathMappingRule) : ℤ :=
  let narrow (r : PathMappingRule) : ℤ := if r.scopeId.isSome then 1 else 0
  let length (r : PathMappingRule) : ℤ := (normalizePrefix r.fromPrefix).length
  if narrow b - narrow a ≠ 0 then narrow b - narrow a
  else if b.priority - a.priority ≠ 0 then b.priority - a.priority
  else length b - length a

def matching (canonical : Text) (space : PathSpace) (rules : List PathMappingRule)
    (scopeId : Option String) : List PathMappingRule :=
  ((rules.filter fun r => r.enabled && r.space = space).filter
    fun r => r.scopeId = none || r.scopeId = scopeId).filter fun r => isUnderPrefix canonical r.fromPrefix

def rewrite (canonical start replacement : Text) : Text :=
  let rest := (normalizePrefix canonical).drop (normalizePrefix start).length
  let text := normalizePrefix replacement ++ rest
  if text = [] then ['/'] else text

/-- A canonical path as a space spells it; without a rule it stays as it is. -/
def toSpace (canonical : Text) (space : PathSpace) (rules : List PathMappingRule)
    (scopeId : Option String) : Text :=
  if space = .canonical then canonical
  else match ((matching canonical space rules scopeId).mergeSort fun a b => compareRules a b ≤ 0).head? with
    | none => canonical
    | some r => rewrite canonical r.fromPrefix r.toPrefix

def invert (r : PathMappingRule) : PathMappingRule :=
  { r with fromPrefix := r.toPrefix, toPrefix := r.fromPrefix }

/-- The canonical form of a path as a space spells it. -/
def fromSpace (path : Text) (space : PathSpace) (rules : List PathMappingRule)
    (scopeId : Option String) : Text :=
  if space = .canonical then path
  else
    let inverted := (rules.filter fun r => r.enabled && r.space = space).map invert
    toSpace path space (inverted.map fun r => { r with space }) scopeId

example : toSpace "/media//tv/Show/".toList .host
    [⟨"a", .host, "/media".toList, "/mnt/media/".toList, none, 0, true⟩] none =
      "/mnt/media/tv/Show".toList := by decide +kernel

/-! ### Texts of absolute paths -/

def IsAbsolute (text : Text) : Prop := text.head? = some '/'

instance (text : Text) : Decidable (IsAbsolute text) := inferInstanceAs (Decidable (_ = _))

abbrev segments (text : Text) : List Text := parts (· = '/') text

/-- The path with these segments. -/
def textOf (names : List Text) : Text := if names = [] then ['/'] else joined '/' names

theorem textOf_nil : textOf [] = ['/'] := rfl

theorem textOf_of_ne {names : List Text} (h : names ≠ []) : textOf names = joined '/' names := if_neg h

def Names (names : List Text) : Prop := ∀ name ∈ names, name ≠ [] ∧ Free (· = '/') name

variable {names below : List Text} {text path start replacement : Text}

theorem names_segments (text : Text) : Names (segments text) := fun _ h => mem_parts h

theorem segments_textOf (h : Names names) : segments (textOf names) = names := by
  unfold textOf
  split_ifs with hnil
  · rw [hnil, segments, parts_cons (by decide), parts_nil]
  · exact parts_joined (by decide) h

theorem isAbsolute_textOf (names : List Text) : IsAbsolute (textOf names) := by
  unfold textOf
  split_ifs with hnil
  · rfl
  · obtain ⟨name, names, rfl⟩ := List.exists_cons_of_ne_nil hnil
    rw [joined_cons]
    rfl

theorem getLast?_ne (hne : text ≠ []) (hfree : Free (· = '/') text) (front : Text) :
    (front ++ text).getLast? ≠ some '/' := by
  obtain ⟨start, last, rfl⟩ := (List.eq_nil_or_concat' text).resolve_left hne
  rw [← List.append_assoc, List.getLast?_concat, ne_eq, Option.some_inj]
  exact of_decide_eq_false (hfree last (List.mem_append_right _ List.mem_cons_self))

/-- Collapsed, an absolute text is its segments, and the slash it ends in if it does. -/
theorem collapse_eq (h : Follows (· = '/') text) : collapse (· = '/') '/' text =
    joined '/' (segments text) ++ if text.getLast? = some '/' then ['/'] else [] := by
  induction hn : text.length using Nat.strong_induction_on generalizing text with
  | h n ih =>
    cases text with
    | nil => rfl
    | cons c text =>
      obtain rfl : c = '/' := of_decide_eq_true (h c rfl)
      rw [collapse_cons (by decide), segments, parts_cons (by decide), ← parts_dropWhile]
      have hsplit : text.takeWhile (· = '/') ++ text.dropWhile (· = '/') = text :=
        List.takeWhile_append_dropWhile
      cases hdrop : text.dropWhile (· = '/') with
      | nil =>
        have hlast : ('/' :: text).getLast? = some '/' := by
          have hall := List.dropWhile_eq_nil_iff.1 hdrop
          rw [List.eq_replicate_of_mem fun x hx => of_decide_eq_true (hall x hx), ← List.replicate_succ,
            List.getLast?_replicate]
          rfl
        rw [if_pos hlast]
        rfl
      | cons d more =>
        have hd : decide (d = '/') = false := by
          have hnot := List.head?_dropWhile_not (· = '/') text
          rw [hdrop] at hnot
          simpa using hnot
        obtain ⟨name, rest, hname, hne, hfree, hrest⟩ :
            ∃ name rest, d :: more = name ++ rest ∧ name ≠ [] ∧ Free (· = '/') name ∧ Follows (· = '/') rest :=
          @exists_segment _ (· = '/') d hd more
        rw [hdrop, hname] at hsplit
        have hlt : rest.length < n := by
          have hlength := congrArg List.length hsplit
          rw [List.length_append, List.length_append] at hlength
          rw [← hn, List.length_cons]
          omega
        have hlast : ('/' :: text).getLast? = some '/' ↔ rest.getLast? = some '/' := by
          rw [← hsplit, ← List.append_assoc, ← List.cons_append, List.getLast?_append]
          cases rest.getLast? with
          | some _ => rw [Option.some_or]
          | none =>
            rw [Option.none_or, ← List.cons_append]
            exact iff_of_false (getLast?_ne hne hfree _) nofun
        rw [hname, collapse_append hfree, ih _ hlt hrest rfl, segments, parts_append hne hfree hrest, joined_cons]
        simp [hlast]

theorem getLast?_joined (h : Names names) : (joined '/' names).getLast? ≠ some '/' := by
  rcases List.eq_nil_or_concat' names with rfl | ⟨front, last, rfl⟩
  · nofun
  · obtain ⟨hne, hfree⟩ := h last (by simp)
    have hjoined : joined '/' (front ++ [last]) = joined '/' front ++ ['/'] ++ last := by simp [joined]
    rw [hjoined]
    exact getLast?_ne hne hfree _

theorem one_lt_length_joined (h : Names names) (hne : names ≠ []) : 1 < (joined '/' names).length := by
  obtain ⟨name, names, rfl⟩ := List.exists_cons_of_ne_nil hne
  have hpos := List.length_pos_of_ne_nil (h name List.mem_cons_self).1
  rw [joined_cons, List.length_cons, List.length_append]
  omega

theorem normalizePrefix_eq (h : IsAbsolute text) : normalizePrefix text = textOf (segments text) := by
  have hhead : Follows (· = '/') text := by
    intro c hc
    rw [h, Option.mem_some_iff] at hc
    exact decide_eq_true hc.symm
  have hcollapse := collapse_eq hhead
  by_cases hnil : segments text = []
  · have hne : collapse (· = '/') '/' text ≠ [] := by
      obtain ⟨rest, rfl⟩ := List.head?_eq_some_iff.1 h
      rw [collapse_cons (by decide)]
      exact List.cons_ne_nil _ _
    have hlast : text.getLast? = some '/' := by
      by_contra hlast
      exact hne (by rw [hcollapse, hnil, if_neg hlast]; rfl)
    rw [hnil, if_pos hlast] at hcollapse
    rw [normalizePrefix, hcollapse, hnil]
    rfl
  · have hlength := one_lt_length_joined (names_segments text) hnil
    rw [normalizePrefix, hcollapse, textOf, if_neg hnil]
    split_ifs with hlast hcond hcond
    · exact List.dropLast_concat
    · exact absurd ⟨by rw [List.length_append]; omega, List.getLast?_concat⟩ hcond
    · rw [List.append_nil] at hcond
      exact absurd hcond.2 (getLast?_joined (names_segments text))
    · exact List.append_nil _

theorem textOf_injective {others : List Text} (h : Names names) (h' : Names others)
    (heq : textOf names = textOf others) : names = others := by
  rw [← segments_textOf h, heq, segments_textOf h']

theorem free_of_names (h : Names names) : ∀ name ∈ names, Free (· = '/') name := fun name hname => (h name hname).2

theorem isUnderPrefix_iff (hpath : IsAbsolute path) (hstart : IsAbsolute start) :
    isUnderPrefix path start = true ↔ segments start <+: segments path := by
  have hp := names_segments path
  have hq := names_segments start
  rw [isUnderPrefix, normalizePrefix_eq hpath, normalizePrefix_eq hstart, Bool.or_eq_true, decide_eq_true_eq,
    List.isPrefixOf_iff_prefix]
  by_cases hroot : segments start = []
  · rw [hroot, textOf_nil, if_pos rfl]
    refine iff_of_true (.inr ?_) List.nil_prefix
    obtain ⟨rest, hrest⟩ := List.head?_eq_some_iff.1 (isAbsolute_textOf (segments path))
    rw [hrest]
    exact ⟨rest, rfl⟩
  · have hlong := one_lt_length_joined hq hroot
    have hne : textOf (segments start) ≠ ['/'] := by
      rw [textOf_of_ne hroot]
      exact fun heq => by simp [heq] at hlong
    rw [if_neg hne]
    constructor
    · rintro (heq | ⟨rest, hrest⟩)
      · exact (textOf_injective hp hq heq) ▸ List.prefix_rfl
      · have hpne : segments path ≠ [] := by
          intro hnil
          rw [hnil, textOf_of_ne hroot, textOf_nil] at hrest
          have hlength := congrArg List.length hrest
          rw [List.length_append, List.length_append, List.length_singleton] at hlength
          omega
        rw [textOf_of_ne hroot, textOf_of_ne hpne, List.append_assoc] at hrest
        have hfollows : Follows (· = '/') ('/' :: rest) := fun c hc => by simpa using hc.symm
        exact prefix_of_joined (by decide) (free_of_names hq) (free_of_names hp) hfollows hrest
    · intro hprefix
      have hpne : segments path ≠ [] := fun hnil => hroot (List.prefix_nil.1 (hnil ▸ hprefix))
      rw [textOf_of_ne hroot, textOf_of_ne hpne]
      rcases joined_of_prefix '/' hprefix with heq | ⟨rest, heq⟩
      · exact .inl heq
      · exact .inr ⟨rest, by rw [heq, List.append_assoc]; rfl⟩

/-! ### The rewritten path -/

theorem rewrite_eq (hpath : IsAbsolute path) (hstart : IsAbsolute start) (hreplacement : IsAbsolute replacement) :
    rewrite path start replacement =
      textOf (segments replacement) ++ (textOf (segments path)).drop (textOf (segments start)).length := by
  rw [rewrite, normalizePrefix_eq hpath, normalizePrefix_eq hstart, normalizePrefix_eq hreplacement]
  refine if_neg fun hnil => ?_
  obtain ⟨rest, hrest⟩ := List.head?_eq_some_iff.1 (isAbsolute_textOf (segments replacement))
  rw [hrest] at hnil
  cases hnil

theorem drop_textOf (hne : names ≠ []) : (textOf (names ++ below)).drop (textOf names).length = joined '/' below := by
  rw [textOf_of_ne hne, textOf_of_ne (by simp [hne]), joined_append, List.drop_left]

theorem textOf_eq_cons (names : List Text) : textOf names = '/' :: (textOf names).drop 1 := by
  obtain ⟨rest, hrest⟩ := List.head?_eq_some_iff.1 (isAbsolute_textOf names)
  rw [hrest, List.drop_one, List.tail_cons]

/-- Between two roots, or two prefixes of which neither is a root, every path keeps its rest; between others
only the prefix itself does. -/
theorem rewrite_kept (hpath : IsAbsolute path) (hstart : IsAbsolute start) (hreplacement : IsAbsolute replacement)
    (hbelow : segments path = segments start ++ below)
    (h : below = [] ∨ (segments start = [] ↔ segments replacement = [])) :
    rewrite path start replacement = textOf (segments replacement ++ below) := by
  rw [rewrite_eq hpath hstart hreplacement, hbelow]
  by_cases hnil : below = []
  · rw [hnil, List.append_nil, List.append_nil, List.drop_length, List.append_nil]
  · have hiff := h.resolve_left hnil
    by_cases hroot : segments start = []
    · rw [hroot, hiff.1 hroot, List.nil_append, textOf_eq_cons below]
      rfl
    · rw [drop_textOf hroot, textOf_of_ne (mt hiff.2 hroot), textOf_of_ne (by simp [hnil]), joined_append]

theorem length_segments_rewrite (hpath : IsAbsolute path) (hstart : IsAbsolute start)
    (hreplacement : IsAbsolute replacement) (hroot : segments start = []) (hne : segments replacement ≠ [])
    (hbelow : segments path ≠ []) : (segments (rewrite path start replacement)).length + 1 =
      (segments replacement).length + (segments path).length := by
  rw [rewrite_eq hpath hstart hreplacement, hroot]
  have hnames := names_segments path
  have hnames' := names_segments replacement
  obtain ⟨name, below, hpathnames⟩ := List.exists_cons_of_ne_nil hbelow
  obtain ⟨front, last, hlast⟩ := (List.eq_nil_or_concat' _).resolve_left hne
  rw [hpathnames] at hnames ⊢
  rw [hlast] at hnames' ⊢
  have htext : textOf (front ++ [last]) ++ (textOf (name :: below)).drop (textOf []).length =
      joined '/' (front ++ (last ++ name) :: below) := by
    rw [textOf_nil, textOf_of_ne (List.append_ne_nil_of_right_ne_nil _ (List.cons_ne_nil _ _)),
      textOf_of_ne (List.cons_ne_nil _ _), List.length_singleton, joined_cons, List.drop_one, List.tail_cons,
      joined_append, joined_append, joined_cons, joined_cons]
    simp [joined]
  have hjoined : Names (front ++ (last ++ name) :: below) := by
    simp only [Names, List.mem_append, List.mem_cons, List.not_mem_nil, or_false] at hnames hnames' ⊢
    rintro x (hx | rfl | hx)
    · exact hnames' x (.inl hx)
    · have hl := hnames' last (.inr rfl)
      have hn := hnames name (.inl rfl)
      refine ⟨by simp [hl.1], fun c hc => ?_⟩
      exact (List.mem_append.1 hc).elim (hl.2 c) (hn.2 c)
    · exact hnames x (.inr hx)
  rw [htext, segments, parts_joined (by decide) hjoined]
  simp
  omega

/-! ### Rules of one space and scope -/

/-- One prefix begins the other. -/
def Nested (start start' : Text) : Prop :=
  segments start <+: segments start' ∨ segments start' <+: segments start

instance (start start' : Text) : Decidable (Nested start start') := inferInstanceAs (Decidable (_ ∨ _))

/-- Enabled rules whose prefixes are apart on both sides. A rule is never of the canonical space: the
registry refuses it there. -/
structure RuleSet where
  space : PathSpace
  scopeId : Option String
  rules : List PathMappingRule
  foreign : space ≠ .canonical
  uniform : ∀ r ∈ rules, r.enabled = true ∧ r.space = space ∧ r.scopeId = scopeId
  absolute : ∀ r ∈ rules, IsAbsolute r.fromPrefix ∧ IsAbsolute r.toPrefix
  fromApart : ∀ r ∈ rules, ∀ r' ∈ rules, r ≠ r' → ¬ Nested r.fromPrefix r'.fromPrefix
  toApart : ∀ r ∈ rules, ∀ r' ∈ rules, r ≠ r' → ¬ Nested r.toPrefix r'.toPrefix

namespace RuleSet

variable (rs : RuleSet) {r : PathMappingRule} {scopeId : Option String}

/-- The callers the rules speak to. -/
def Speaks (scopeId : Option String) : Prop := rs.scopeId = none ∨ rs.scopeId = scopeId

instance (scopeId : Option String) : Decidable (rs.Speaks scopeId) := inferInstanceAs (Decidable (_ ∨ _))

def inverse : RuleSet where
  space := rs.space
  scopeId := rs.scopeId
  rules := rs.rules.map invert
  foreign := rs.foreign
  uniform := List.forall_mem_map.2 rs.uniform
  absolute := List.forall_mem_map.2 fun r hr => (rs.absolute r hr).symm
  fromApart := by
    intro a ha b hb hne
    obtain ⟨r, hr, rfl⟩ := List.mem_map.1 ha
    obtain ⟨r', hr', rfl⟩ := List.mem_map.1 hb
    exact rs.toApart r hr r' hr' (ne_of_apply_ne invert hne)
  toApart := by
    intro a ha b hb hne
    obtain ⟨r, hr, rfl⟩ := List.mem_map.1 ha
    obtain ⟨r', hr', rfl⟩ := List.mem_map.1 hb
    exact rs.fromApart r hr r' hr' (ne_of_apply_ne invert hne)

theorem inverse_speaks (h : rs.Speaks scopeId) : rs.inverse.Speaks scopeId := h

theorem mem_matching (hspeaks : rs.Speaks scopeId) (hpath : IsAbsolute path) :
    r ∈ matching path rs.space rs.rules scopeId ↔ r ∈ rs.rules ∧ segments r.fromPrefix <+: segments path := by
  simp only [matching, List.mem_filter, Bool.and_eq_true, Bool.or_eq_true, decide_eq_true_eq]
  constructor
  · rintro ⟨⟨⟨hr, -⟩, -⟩, hunder⟩
    exact ⟨hr, (isUnderPrefix_iff hpath (rs.absolute r hr).1).1 hunder⟩
  · rintro ⟨hr, hprefix⟩
    obtain ⟨henabled, hspace, hscope⟩ := rs.uniform r hr
    exact ⟨⟨⟨hr, henabled, hspace⟩, hscope ▸ hspeaks⟩, (isUnderPrefix_iff hpath (rs.absolute r hr).1).2 hprefix⟩

/-- The rule a path is under is the one that applies: no other prefix begins the path. -/
theorem toSpace_under (hspeaks : rs.Speaks scopeId) (hpath : IsAbsolute path) (hr : r ∈ rs.rules)
    (hunder : segments r.fromPrefix <+: segments path) :
    toSpace path rs.space rs.rules scopeId = rewrite path r.fromPrefix r.toPrefix := by
  have honly : ∀ r' ∈ matching path rs.space rs.rules scopeId, r' = r := by
    intro r' hr'
    rw [rs.mem_matching hspeaks hpath] at hr'
    by_contra hne
    exact rs.fromApart r' hr'.1 r hr hne (List.prefix_or_prefix_of_prefix hr'.2 hunder)
  have hmem := (rs.mem_matching hspeaks hpath).2 ⟨hr, hunder⟩
  rw [toSpace, if_neg rs.foreign]
  split
  next hnone =>
    rw [List.head?_eq_none_iff] at hnone
    have hsorted := (@List.mem_mergeSort _ (fun a b => compareRules a b ≤ 0) _ _).2 hmem
    rw [hnone] at hsorted
    cases hsorted
  next r' hsome => rw [honly r' (List.mem_mergeSort.1 (List.mem_of_mem_head? hsome))]

theorem toSpace_apart (hspeaks : rs.Speaks scopeId) (hpath : IsAbsolute path)
    (hunder : ∀ r ∈ rs.rules, ¬ segments r.fromPrefix <+: segments path) :
    toSpace path rs.space rs.rules scopeId = path := by
  have hnil : matching path rs.space rs.rules scopeId = [] := by
    refine List.eq_nil_iff_forall_not_mem.2 fun r hr => ?_
    rw [rs.mem_matching hspeaks hpath] at hr
    exact hunder r hr.1 hr.2
  rw [toSpace, if_neg rs.foreign, hnil, List.mergeSort_nil]
  rfl

theorem fromSpace_eq (path : Text) (scopeId : Option String) : fromSpace path rs.space rs.rules scopeId =
    toSpace path rs.space rs.inverse.rules scopeId := by
  have hfilter : rs.rules.filter (fun r => r.enabled && r.space = rs.space) = rs.rules := by
    refine List.filter_eq_self.2 fun r hr => ?_
    obtain ⟨henabled, hspace, -⟩ := rs.uniform r hr
    simp [henabled, hspace]
  have hmap : (rs.rules.map invert).map (fun r => { r with space := rs.space }) = rs.rules.map invert := by
    rw [List.map_map]
    refine List.map_congr_left fun r hr => ?_
    rw [Function.comp_apply, ← (rs.uniform r hr).2.1]
    rfl
  rw [fromSpace, if_neg rs.foreign, hfilter]
  exact congrArg (toSpace path rs.space · scopeId) hmap

/-- A path under a prefix keeps its rest under the other prefix and comes back; another path stays. -/
def Faithful (scopeId : Option String) (path : Text) : Prop :=
  (∀ r ∈ rs.rules, ∀ below, segments path = segments r.fromPrefix ++ below →
    IsAbsolute (toSpace path rs.space rs.rules scopeId) ∧
    segments (toSpace path rs.space rs.rules scopeId) = segments r.toPrefix ++ below ∧
    fromSpace (toSpace path rs.space rs.rules scopeId) rs.space rs.rules scopeId = path) ∧
  ((∀ r ∈ rs.rules, ¬ segments r.fromPrefix <+: segments path) →
    toSpace path rs.space rs.rules scopeId = path)

/-- A rule takes a path as it is meant to if the path is the prefix or neither prefix is a root alone. -/
def Fits (r : PathMappingRule) (path : Text) : Prop :=
  segments path = segments r.fromPrefix ∨ (segments r.fromPrefix = [] ↔ segments r.toPrefix = [])

instance (r : PathMappingRule) (path : Text) : Decidable (Fits r path) := inferInstanceAs (Decidable (_ ∨ _))

theorem invert_mem (hr : r ∈ rs.rules) : invert r ∈ rs.inverse.rules := List.mem_map_of_mem hr

/-- Out of a root alone the rest loses a segment. -/
theorem rewrite_ne (hpath : IsAbsolute path) (hr : r ∈ rs.rules) (hroot : segments r.fromPrefix = [])
    (hne : segments r.toPrefix ≠ []) (hbelow : segments path ≠ []) :
    segments (rewrite path r.fromPrefix r.toPrefix) ≠ segments r.toPrefix ++ segments path := by
  intro heq
  have hlength := length_segments_rewrite hpath (rs.absolute r hr).1 (rs.absolute r hr).2 hroot hne hbelow
  rw [heq, List.length_append] at hlength
  omega

theorem fits_of_faithful (hspeaks : rs.Speaks scopeId) (hpath : IsAbsolute path)
    (hfaithful : rs.Faithful scopeId path) (hr : r ∈ rs.rules)
    (hunder : segments r.fromPrefix <+: segments path) : Fits r path := by
  obtain ⟨below, hbelow⟩ := hunder
  obtain ⟨habsolute, hsegments, hback⟩ := hfaithful.1 r hr below hbelow.symm
  have hto := rs.toSpace_under hspeaks hpath hr ⟨below, hbelow⟩
  by_contra hfits
  rw [Fits, not_or] at hfits
  have hnil : below ≠ [] := fun hnil => hfits.1 (by rw [← hbelow, hnil, List.append_nil])
  by_cases hroot : segments r.fromPrefix = []
  · have hne : segments r.toPrefix ≠ [] := fun hto => hfits.2 ⟨fun _ => hto, fun _ => hroot⟩
    rw [hroot, List.nil_append] at hbelow
    rw [hto, hbelow] at hsegments
    exact rs.rewrite_ne hpath hr hroot hne (hbelow ▸ hnil) hsegments
  · have hroot' : segments r.toPrefix = [] := by
      by_contra hto
      exact hfits.2 ⟨fun h => absurd h hroot, fun h => absurd h hto⟩
    rw [hroot', List.nil_append] at hsegments
    -- back from the root, the way that loses a segment
    have hfrom := rs.inverse.toSpace_under (rs.inverse_speaks hspeaks) habsolute (rs.invert_mem hr)
      (by rw [show segments (invert r).fromPrefix = [] from hroot']; exact List.nil_prefix)
    rw [rs.fromSpace_eq] at hback
    refine rs.inverse.rewrite_ne habsolute (rs.invert_mem hr) hroot' hroot (hsegments ▸ hnil) ?_
    rw [← hfrom, hsegments]
    exact (congrArg segments hback).trans hbelow.symm

theorem faithful_of_fits (hspeaks : rs.Speaks scopeId) (hpath : IsAbsolute path)
    (hnormal : normalizePrefix path = path)
    (h : ∀ r ∈ rs.rules, segments r.fromPrefix <+: segments path → Fits r path) : rs.Faithful scopeId path := by
  refine ⟨fun r hr below hbelow => ?_, rs.toSpace_apart hspeaks hpath⟩
  obtain ⟨hfrom, hto⟩ := rs.absolute r hr
  have hkept : below = [] ∨ (segments r.fromPrefix = [] ↔ segments r.toPrefix = []) := by
    refine (h r hr ⟨below, hbelow.symm⟩).imp_left fun heq => ?_
    rwa [hbelow, List.append_right_eq_self] at heq
  have hnames : Names (segments r.toPrefix ++ below) := by
    intro name hname
    rcases List.mem_append.1 hname with hname | hname
    · exact names_segments _ name hname
    · exact names_segments path name (hbelow ▸ List.mem_append_right _ hname)
  have heq : toSpace path rs.space rs.rules scopeId = textOf (segments r.toPrefix ++ below) := by
    rw [rs.toSpace_under hspeaks hpath hr ⟨below, hbelow.symm⟩, rewrite_kept hpath hfrom hto hbelow hkept]
  have habsolute := isAbsolute_textOf (segments r.toPrefix ++ below)
  have hsegments := segments_textOf hnames
  refine ⟨heq ▸ habsolute, heq ▸ hsegments, ?_⟩
  have hback := rs.inverse.toSpace_under (rs.inverse_speaks hspeaks) habsolute (rs.invert_mem hr)
    ⟨below, hsegments.symm⟩
  calc fromSpace (toSpace path rs.space rs.rules scopeId) rs.space rs.rules scopeId
      = toSpace (textOf (segments r.toPrefix ++ below)) rs.inverse.space rs.inverse.rules scopeId := by
        rw [heq, rs.fromSpace_eq]
        rfl
    _ = rewrite (textOf (segments r.toPrefix ++ below)) r.toPrefix r.fromPrefix := hback
    _ = textOf (segments r.fromPrefix ++ below) :=
        rewrite_kept habsolute hto hfrom hsegments (hkept.imp_right Iff.symm)
    _ = path := by rw [← hbelow, ← normalizePrefix_eq hpath, hnormal]

/-- Renaming is faithful where no path goes from a root to another prefix, or back. -/
theorem faithful_iff (hspeaks : rs.Speaks scopeId) (hpath : IsAbsolute path)
    (hnormal : normalizePrefix path = path) : rs.Faithful scopeId path ↔
      ∀ r ∈ rs.rules, segments r.fromPrefix <+: segments path → Fits r path :=
  ⟨fun h _ hr hunder => rs.fits_of_faithful hspeaks hpath h hr hunder, rs.faithful_of_fits hspeaks hpath hnormal⟩

/-- Two mounts, one written with a slash at the end and one with two in it. -/
def mounts : RuleSet where
  space := .host
  scopeId := none
  rules := [⟨"media", .host, "/media".toList, "/mnt/media/".toList, none, 0, true⟩,
    ⟨"downloads", .host, "/downloads/".toList, "/srv//downloads".toList, none, 0, true⟩]
  foreign := by decide
  uniform := by decide
  absolute := by decide
  fromApart := by decide +kernel
  toApart := by decide +kernel

theorem faithful_mounts : mounts.Faithful none "/downloads/tv/Show".toList :=
  (faithful_iff mounts (by decide) (by decide) (by decide +kernel)).2 (by decide +kernel)

/-- The whole tree under one directory. -/
def chroot : RuleSet where
  space := .container
  scopeId := none
  rules := [⟨"root", .container, ['/'], "/mnt".toList, none, 0, true⟩]
  foreign := by decide
  uniform := by decide
  absolute := by decide
  fromApart := by decide +kernel
  toApart := by decide +kernel

/-- `/a` becomes `/mnta`. -/
theorem not_faithful_chroot : ¬ ∀ (rs : RuleSet) (scopeId : Option String) (path : Text), rs.Speaks scopeId →
    IsAbsolute path → normalizePrefix path = path → rs.Faithful scopeId path := by
  intro h
  have hfaithful := h chroot none "/a".toList (by decide) (by decide) (by decide +kernel)
  have hbelow : segments "/a".toList = segments ['/'] ++ [['a']] := by decide +kernel
  have hkept := (hfaithful.1 _ List.mem_cons_self [['a']] hbelow).2.1
  have hne : segments (toSpace "/a".toList .container chroot.rules none) ≠ segments "/mnt".toList ++ [['a']] := by
    decide +kernel
  exact hne hkept

end RuleSet

end UltraTorrent.Intake.PathMapping
