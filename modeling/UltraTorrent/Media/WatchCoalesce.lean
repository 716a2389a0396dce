import Mathlib.Data.List.Nodup
import Mathlib.Data.List.Pairwise
import UltraTorrent.Library.Collation
import UltraTorrent.Library.EcmaScript
import UltraTorrent.Library.NodePath

/-! A burst of changes is turned into the fewest scans that cover it: a directory whose parent is
scanned is left out, and past a cap the common ancestor of all the rest is scanned instead. -/
namespace UltraTorrent.Media.WatchCoalesce

open Library Library.EcmaScript Library.Collation
open Library.NodePath (dirname isAbsolute)

/-! ### Directories as texts -/

/-- What is left when the slashes at the end are taken away; nothing of the root. -/
def stripped (dir : String) : List Char := dir.toList.rdropWhile (· = '/')

def norm (dir : String) : String := if stripped dir = [] then "/" else .ofList (stripped dir)

def isAtOrUnder (child parent : String) : Bool :=
  let c := norm child
  let p := norm parent
  c = p || (if p = "/" then "/" else p ++ "/").toList.isPrefixOf c.toList

/-! ### Reducing -/

section Reduce

variable {α : Type} (under : α → α → Bool)

/-- What is kept when one entry after another is looked at: those that are under none kept so far. -/
def reduce (entries : List α) : List α :=
  entries.foldl (fun kept a => if kept.any (under a) then kept else kept ++ [a]) []

end Reduce

/-- The loop that climbs from a directory until another one is under it. -/
def climb (dir : String) : ℕ → String → String
  | 0, common => common
  | fuel + 1, common =>
    if isAtOrUnder dir common then common
    else
      let parent := dirname common
      if parent = common then common else climb dir fuel parent

/-- The deepest directory that contains all of these, from the first one upwards. -/
def ancestor (first : String) (rest : List String) : String :=
  rest.foldl (fun common dir => climb dir (common.length + 1) common) first

def shortestFirst (rt : Runtime) (dirs : List String) : List String :=
  ranked rt.localeCompare (fun dir => (Runtime.codeUnits dir).length) id dirs

def unique (dirs : List String) : List String := ((dirs.map norm).eraseDups).filter (· ≠ "")

/-- A parent is always considered before its children. -/
def kept (rt : Runtime) (dirs : List String) : List String := reduce isAtOrUnder (shortestFirst rt (unique dirs))

def coalesceScanTargets (rt : Runtime) (dirs : List String) (cap : Option ℚ) (root : Option String) :
    List String :=
  match kept rt dirs with
  | [] => []
  | first :: rest =>
    if (first :: rest).length ≤ cap.getD 25 then first :: rest
    else
      let common := ancestor first rest
      match root.getD "" with
      | "" => [common]
      | root => if isAtOrUnder common (norm root) then [common] else [norm root]

/-! ### Directories inside one another -/

/-- The first of two texts without slashes at the end names the second or a directory around it. -/
def Above (q c : List Char) : Prop := c = q ∨ q ++ ['/'] <+: c

section Above

variable {q c d u seg : List Char} {dir child parent other : String}

@[refl] theorem Above.refl (q : List Char) : Above q q := .inl rfl

theorem Above.prefix (h : Above q c) : q <+: c := by
  rcases h with rfl | hprefix
  · exact List.prefix_rfl
  · exact (List.prefix_append ..).trans hprefix

theorem Above.trans (hqc : Above q c) (hcd : Above c d) : Above q d := by
  rcases hcd with rfl | hcd
  · exact hqc
  · rcases hqc with rfl | hqc
    · exact .inr hcd
    · exact .inr (hqc.trans ((List.prefix_append ..).trans hcd))

theorem Above.antisymm (hqc : Above q c) (hcq : Above c q) : q = c :=
  hqc.prefix.eq_of_length_le hcq.prefix.length_le

/-- A text that does not end in a slash. -/
def Trimmed (q : List Char) : Prop := q.rdropWhile (· = '/') = q

theorem trimmed_rdropWhile (q : List Char) : Trimmed (q.rdropWhile (· = '/')) := List.rdropWhile_idempotent ..

theorem trimmed_stripped (dir : String) : Trimmed (stripped dir) := trimmed_rdropWhile _

theorem rdropWhile_append (q r : List Char) :
    (q ++ r).rdropWhile (· = '/') =
      if r.rdropWhile (· = '/') = [] then q.rdropWhile (· = '/') else q ++ r.rdropWhile (· = '/') := by
  simp only [List.rdropWhile, List.reverse_append, List.dropWhile_append, List.isEmpty_iff, List.reverse_eq_nil_iff]
  split_ifs
  · rfl
  · simp

/-- What is above a text with slashes at its end is above it without them. -/
theorem above_rdropWhile (hq : Trimmed q) (h : Above q u) : Above q (u.rdropWhile (· = '/')) := by
  rcases h with rfl | ⟨r, rfl⟩
  · exact .inl hq
  · rw [List.append_assoc, rdropWhile_append]
    split_ifs with hslashes
    · exact .inl hq
    · right
      rw [List.singleton_append, show '/' :: r = ['/'] ++ r from rfl, rdropWhile_append] at hslashes ⊢
      split_ifs at hslashes ⊢ with hrest
      · exact absurd rfl hslashes
      · rw [← List.append_assoc]
        exact List.prefix_append ..

theorem above_of_rdropWhile (u seg : List Char) : Above (u.rdropWhile (· = '/')) (u ++ '/' :: seg) := by
  have hslashes : u.rdropWhile (· = '/') ++ u.rtakeWhile (· = '/') = u := List.rdropWhile_append_rtakeWhile
  rcases hrest : u.rtakeWhile (· = '/') with - | ⟨c, rest⟩
  · rw [hrest, List.append_nil] at hslashes
    rw [hslashes]
    exact .inr ⟨seg, by simp⟩
  · have hc : c = '/' := by
      have hmem := List.mem_rtakeWhile_imp (p := fun c => decide (c = '/')) (hrest ▸ List.mem_cons_self)
      exact of_decide_eq_true hmem
    subst hc
    rw [hrest] at hslashes
    exact .inr ⟨rest ++ '/' :: seg, by rw [← List.append_assoc, List.append_assoc _ ['/'] rest]; simp [hslashes]⟩

theorem above_append_iff (hq : Trimmed q) (hseg : '/' ∉ seg) :
    Above q (u ++ '/' :: seg) ↔ q = u ++ '/' :: seg ∨ Above q (u.rdropWhile (· = '/')) := by
  constructor
  · rintro (heq | ⟨r, hr⟩)
    · exact .inl heq.symm
    refine .inr (above_rdropWhile hq ?_)
    rcases List.append_eq_append_iff.1 hr with ⟨rest, hu, -⟩ | ⟨rest, hfront, hrest⟩
    · exact .inr ⟨rest, hu.symm⟩
    · rcases rest with - | ⟨c, rest⟩
      · rw [List.append_nil] at hfront
        exact .inr ⟨[], by rw [hfront, List.append_nil]⟩
      obtain ⟨rfl, hseg'⟩ := List.cons.inj hrest
      rcases List.eq_nil_or_concat' rest with rfl | ⟨rest, last, rfl⟩
      · exact .inl (List.append_inj_left' hfront rfl).symm
      · -- the slash after the directory would be in the segment
        rw [← List.cons_append, ← List.append_assoc] at hfront
        have hlast : ['/'] = [last] := List.append_inj_right' hfront rfl
        obtain rfl : '/' = last := List.head_eq_of_cons_eq hlast
        refine absurd ?_ hseg
        rw [hseg']
        simp
  · rintro (rfl | habove)
    · exact .refl _
    · exact habove.trans (above_of_rdropWhile u seg)

@[simp] theorem stripped_root : stripped "/" = [] := rfl

theorem norm_of_stripped_eq_nil (h : stripped dir = []) : norm dir = "/" := if_pos h

theorem toList_norm (h : stripped dir ≠ []) : (norm dir).toList = stripped dir := by
  rw [norm, if_neg h, String.toList_ofList]

theorem stripped_norm (dir : String) : stripped (norm dir) = stripped dir := by
  by_cases h : stripped dir = []
  · rw [norm_of_stripped_eq_nil h, h, stripped_root]
  · rw [stripped, toList_norm h, trimmed_stripped]

@[simp] theorem norm_norm (dir : String) : norm (norm dir) = norm dir := by
  rw [norm, stripped_norm, ← norm]

theorem norm_inj : norm dir = norm other ↔ stripped dir = stripped other := by
  constructor <;> intro h
  · rw [← stripped_norm, h, stripped_norm]
  · rw [norm, h, ← norm]

theorem norm_ne_empty (dir : String) : norm dir ≠ "" := by
  by_cases h : stripped dir = []
  · rw [norm_of_stripped_eq_nil h]
    decide
  · intro hempty
    rw [← toList_norm h, hempty] at h
    exact h rfl

theorem norm_eq_root_iff : norm dir = "/" ↔ stripped dir = [] := by
  rw [show "/" = norm "/" from rfl, norm_inj, stripped_root]

theorem isAtOrUnder_iff : isAtOrUnder child parent ↔ Above (stripped parent) (stripped child) := by
  simp only [isAtOrUnder, Bool.or_eq_true, decide_eq_true_eq, List.isPrefixOf_iff_prefix, norm_inj, norm_eq_root_iff,
    Above]
  by_cases hparent : stripped parent = []
  · rw [if_pos hparent, hparent]
    by_cases hchild : stripped child = []
    · simp [hchild]
    · rw [toList_norm hchild]
      rfl
  · rw [if_neg hparent, String.toList_append, toList_norm hparent]
    by_cases hchild : stripped child = []
    · rw [norm_of_stripped_eq_nil hchild, hchild]
      refine or_congr_right (iff_of_false (fun h => ?_) fun h => ?_)
      · exact hparent (by simpa using h.length_le)
      · simpa using h.length_le
    · rw [toList_norm hchild]
      rfl

theorem isAtOrUnder_refl (dir : String) : isAtOrUnder dir dir := isAtOrUnder_iff.2 (.refl _)

theorem isAtOrUnder_trans (h : isAtOrUnder child parent) (h' : isAtOrUnder parent other) : isAtOrUnder child other :=
  isAtOrUnder_iff.2 ((isAtOrUnder_iff.1 h').trans (isAtOrUnder_iff.1 h))

theorem isAtOrUnder_antisymm (h : isAtOrUnder child parent) (h' : isAtOrUnder parent child) :
    norm child = norm parent :=
  norm_inj.2 ((isAtOrUnder_iff.1 h').antisymm (isAtOrUnder_iff.1 h))

@[simp] theorem isAtOrUnder_norm_left : isAtOrUnder (norm child) parent = isAtOrUnder child parent := by
  simp only [isAtOrUnder, norm_norm]

@[simp] theorem isAtOrUnder_norm_right : isAtOrUnder child (norm parent) = isAtOrUnder child parent := by
  simp only [isAtOrUnder, norm_norm]

/-! ### The directory around one -/

theorem isAbsolute_iff : isAbsolute dir ↔ dir.toList.head? = some '/' := by simp [isAbsolute]

/-- An absolute directory is directly under the root, or it has a slash in front of its last segment. -/
theorem dirname_cases {t : List Char} (ht : dir.toList = '/' :: t) :
    '/' ∉ t.rdropWhile (· = '/') ∧ dirname dir = "/" ∨
      ∃ k seg, '/' ∉ seg ∧ t.rdropWhile (· = '/') = k ++ '/' :: seg ∧
        dirname dir = if k = [] then "//" else .ofList ('/' :: k) := by
  have hdir : dir ≠ "" := by
    rintro rfl
    simp at ht
  have habsolute : isAbsolute dir := by rw [isAbsolute_iff, ht]; rfl
  unfold dirname
  rw [if_neg hdir, if_pos habsolute, ht, List.drop_one, List.tail_cons]
  generalize hs : t.rdropWhile (· = '/') = s
  have hsplit : s.rdropWhile (· ≠ '/') ++ s.rtakeWhile (· ≠ '/') = s := List.rdropWhile_append_rtakeWhile
  have hfree : '/' ∉ s.rtakeWhile (· ≠ '/') := by
    intro hmem
    have hne := List.mem_rtakeWhile_imp hmem
    exact absurd rfl (of_decide_eq_true hne)
  rcases List.eq_nil_or_concat' (s.rdropWhile (· ≠ '/')) with hkept | ⟨k, last, hkept⟩
  · left
    rw [hkept, List.nil_append] at hsplit
    rw [hkept, if_pos rfl]
    exact ⟨hsplit ▸ hfree, rfl⟩
  · right
    have hlast : last = '/' := by
      have hnot := List.rdropWhile_last_not (· ≠ '/') s (by rw [hkept]; simp)
      simpa only [hkept, List.getLast_append_singleton, decide_eq_true_eq, not_not] using hnot
    subst hlast
    rw [hkept] at hsplit ⊢
    refine ⟨k, _, hfree, hsplit.symm.trans (List.append_assoc ..), ?_⟩
    rw [if_neg (by simp)]
    by_cases hk : k = []
    · rw [if_pos hk, if_pos ⟨habsolute, by rw [hk]; rfl⟩]
    · have htake : ('/' :: t).take (k ++ ['/']).length = '/' :: k := by
        obtain ⟨slashes, hslashes⟩ := List.rdropWhile_prefix (fun c => decide (c = '/')) t
        rw [hs, ← hsplit] at hslashes
        rw [← hslashes, List.length_append, List.length_singleton, List.take_succ_cons]
        simp
      rw [if_neg hk, if_neg (by simpa using fun _ => hk), htake]

theorem exists_toList (h : isAbsolute dir) : ∃ t, dir.toList = '/' :: t :=
  List.head?_eq_some_iff.1 (isAbsolute_iff.1 h)

theorem isAbsolute_dirname (h : isAbsolute dir) : isAbsolute (dirname dir) := by
  obtain ⟨t, ht⟩ := exists_toList h
  rcases dirname_cases ht with ⟨-, hparent⟩ | ⟨k, seg, -, -, hparent⟩
  · rw [hparent]
    rfl
  · rw [hparent]
    split_ifs
    · rfl
    · simp [isAbsolute]

theorem stripped_of_toList {t : List Char} (ht : dir.toList = '/' :: t) :
    stripped dir = if t.rdropWhile (· = '/') = [] then [] else '/' :: t.rdropWhile (· = '/') := by
  rw [stripped, ht, ← List.singleton_append, rdropWhile_append]
  rfl

theorem stripped_dirname (h : isAbsolute dir) (hroot : stripped dir ≠ []) :
    ∃ u seg, '/' ∉ seg ∧ stripped dir = u ++ '/' :: seg ∧ stripped (dirname dir) = u.rdropWhile (· = '/') := by
  obtain ⟨t, ht⟩ := exists_toList h
  have hstripped := stripped_of_toList ht
  rw [if_neg (fun hnil => hroot (by rw [hstripped, if_pos hnil]))] at hstripped
  rcases dirname_cases ht with ⟨hfree, hparent⟩ | ⟨k, seg, hfree, hs, hparent⟩
  · exact ⟨[], _, hfree, hstripped, by rw [hparent]; rfl⟩
  · refine ⟨'/' :: k, seg, hfree, by rw [hstripped, hs, List.cons_append], ?_⟩
    rw [hparent]
    split_ifs with hk
    · rw [hk]
      rfl
    · rw [stripped, String.toList_ofList]

theorem length_dirname_lt (h : isAbsolute dir) (hroot : dirname dir ≠ dir) : (dirname dir).length < dir.length := by
  obtain ⟨t, ht⟩ := exists_toList h
  have hlength : dir.length = t.length + 1 := by rw [← String.length_toList, ht, List.length_cons]
  have hle := (List.rdropWhile_prefix (fun c => decide (c = '/')) t).length_le
  rcases dirname_cases ht with ⟨-, hparent⟩ | ⟨k, seg, hfree, hs, hparent⟩
  · have hne : t ≠ [] := by
      rintro rfl
      exact hroot (by rw [hparent, ← String.toList_inj, ht]; rfl)
    have hpos := List.length_pos_iff.2 hne
    rw [hparent, hlength]
    show 1 < _
    omega
  · have hseg : seg ≠ [] := by
      rintro rfl
      have htrimmed : Trimmed (k ++ ['/']) := hs ▸ trimmed_rdropWhile t
      rw [Trimmed, List.rdropWhile_concat_pos _ _ _ (by decide)] at htrimmed
      have hbound := (List.rdropWhile_prefix (fun c => decide (c = '/')) k).length_le
      rw [htrimmed, List.length_append, List.length_singleton] at hbound
      omega
    have hpos := List.length_pos_iff.2 hseg
    rw [hs, List.length_append, List.length_cons] at hle
    rw [hparent, hlength]
    split_ifs with hk
    · show 2 < _
      omega
    · rw [String.length_ofList, List.length_cons]
      omega

theorem isAtOrUnder_dirname_iff (h : isAbsolute dir) (hne : norm dir ≠ norm other) :
    isAtOrUnder (dirname dir) other ↔ isAtOrUnder dir other := by
  by_cases hroot : stripped dir = []
  · have hparent : stripped (dirname dir) = [] := by
      obtain ⟨t, ht⟩ := exists_toList h
      have hstripped := stripped_of_toList ht
      rw [hroot] at hstripped
      split_ifs at hstripped with hnil
      rcases dirname_cases ht with ⟨-, hparent⟩ | ⟨k, seg, -, hs, -⟩
      · rw [hparent, stripped_root]
      · simp [hnil] at hs
    rw [isAtOrUnder_iff, isAtOrUnder_iff, hparent, hroot]
  · obtain ⟨u, seg, hfree, hdir, hparent⟩ := stripped_dirname h hroot
    rw [isAtOrUnder_iff, isAtOrUnder_iff, hparent, hdir, above_append_iff (trimmed_stripped other) hfree]
    rw [Ne, norm_inj, hdir] at hne
    exact (or_iff_right (Ne.symm hne)).symm

theorem isAtOrUnder_dirname (h : isAbsolute dir) : isAtOrUnder dir (dirname dir) := by
  by_cases hne : norm dir = norm (dirname dir)
  · rw [← isAtOrUnder_norm_right, ← hne, isAtOrUnder_norm_right]
    exact isAtOrUnder_refl dir
  · exact (isAtOrUnder_dirname_iff h hne).1 (isAtOrUnder_refl _)

theorem isAtOrUnder_root (h : isAbsolute dir) (hparent : stripped parent = []) : isAtOrUnder dir parent := by
  obtain ⟨t, ht⟩ := exists_toList h
  rw [isAtOrUnder_iff, hparent, stripped_of_toList ht]
  split_ifs
  · exact .refl _
  · exact .inr ⟨_, rfl⟩

theorem eq_root_of_dirname (h : isAbsolute dir) (hroot : dirname dir = dir) : stripped dir = [] := by
  by_contra hne
  obtain ⟨u, seg, -, hdir, hparent⟩ := stripped_dirname h hne
  have hlength := congrArg List.length hdir
  have hle := (List.rdropWhile_prefix (fun c => decide (c = '/')) u).length_le
  rw [← hparent, hroot] at hle
  rw [List.length_append, List.length_cons] at hlength
  omega

theorem isAbsolute_norm (h : isAbsolute dir) : isAbsolute (norm dir) := by
  by_cases hroot : stripped dir = []
  · rw [norm_of_stripped_eq_nil hroot]
    rfl
  · obtain ⟨t, ht⟩ := exists_toList h
    have hstripped := stripped_of_toList ht
    rw [if_neg (fun hnil => hroot (by rw [hstripped, if_pos hnil]))] at hstripped
    rw [isAbsolute_iff, toList_norm hroot, hstripped]
    rfl

/-! ### The common ancestor -/

/-- A directory that contains both of these, and that every directory containing both contains. -/
structure Deepest (dir common found : String) : Prop where
  absolute : isAbsolute found
  above : isAtOrUnder dir found
  aboveCommon : isAtOrUnder common found
  least : ∀ q, isAtOrUnder dir q → isAtOrUnder common q → isAtOrUnder found q

theorem deepest_climb (hdir : isAbsolute dir) (fuel : ℕ) {common : String} (hcommon : isAbsolute common)
    (hfuel : common.length < fuel) : Deepest dir common (climb dir fuel common) := by
  induction fuel generalizing common with
  | zero => omega
  | succ fuel ih =>
    rw [climb]
    dsimp only
    split_ifs with hunder hroot
    · exact ⟨hcommon, hunder, isAtOrUnder_refl common, fun _ _ h => h⟩
    · exact absurd (isAtOrUnder_root hdir (eq_root_of_dirname hcommon hroot)) hunder
    · have hlength := length_dirname_lt hcommon hroot
      have hfound := ih (isAbsolute_dirname hcommon) (by omega)
      refine ⟨hfound.absolute, hfound.above, isAtOrUnder_trans (isAtOrUnder_dirname hcommon) hfound.aboveCommon,
        fun q hq hover => hfound.least q hq ?_⟩
      refine (isAtOrUnder_dirname_iff hcommon fun hnorm => hunder ?_).2 hover
      rwa [← isAtOrUnder_norm_right, hnorm, isAtOrUnder_norm_right]

/-- The loop over the directories ends in the deepest one that contains them all. -/
theorem ancestor_spec (rest : List String) {first : String} (hfirst : isAbsolute first)
    (hrest : ∀ dir ∈ rest, isAbsolute dir) :
    isAbsolute (ancestor first rest) ∧ (∀ dir ∈ first :: rest, isAtOrUnder dir (ancestor first rest)) ∧
      ∀ q, (∀ dir ∈ first :: rest, isAtOrUnder dir q) → isAtOrUnder (ancestor first rest) q := by
  induction rest generalizing first with
  | nil => exact ⟨hfirst, by simp [ancestor, isAtOrUnder_refl], fun q hq => hq first (by simp)⟩
  | cons dir rest ih =>
    have hfound := deepest_climb (hrest dir (by simp)) (first.length + 1) hfirst (Nat.lt_succ_self _)
    obtain ⟨habsolute, habove, hleast⟩ := ih hfound.absolute fun d hd => hrest d (by simp [hd])
    rw [List.forall_mem_cons] at habove
    refine ⟨habsolute, ?_, fun q hq => hleast q ?_⟩
    · rw [List.forall_mem_cons, List.forall_mem_cons]
      exact ⟨isAtOrUnder_trans hfound.aboveCommon habove.1, isAtOrUnder_trans hfound.above habove.1, habove.2⟩
    · rw [List.forall_mem_cons, List.forall_mem_cons] at hq
      rw [List.forall_mem_cons]
      exact ⟨hfound.least q hq.2.1 hq.1, hq.2.2⟩

end Above

/-! ### What is kept -/

section Kept

variable {α : Type} {under : α → α → Bool} {l l' : List α} {a b : α}

theorem reduce_concat (l : List α) (a : α) :
    reduce under (l ++ [a]) = if (reduce under l).any (under a) then reduce under l else reduce under l ++ [a] := by
  unfold reduce
  rw [List.foldl_append]
  rfl

theorem reduce_sublist (l : List α) : (reduce under l).Sublist l := by
  induction l using List.reverseRecOn with
  | nil => exact .refl _
  | append_singleton l a ih =>
    rw [reduce_concat]
    split_ifs
    · exact ih.trans (List.sublist_append_left ..)
    · exact ih.append (.refl _)

theorem exists_mem_reduce (hrefl : ∀ a, under a a) (ha : a ∈ l) : ∃ kept ∈ reduce under l, under a kept := by
  induction l using List.reverseRecOn with
  | nil => cases ha
  | append_singleton l b ih =>
    rw [reduce_concat]
    rcases List.mem_append.1 ha with ha | ha
    · obtain ⟨kept, hkept, hunder⟩ := ih ha
      split_ifs
      · exact ⟨kept, hkept, hunder⟩
      · exact ⟨kept, List.mem_append_left _ hkept, hunder⟩
    · obtain rfl := List.mem_singleton.1 ha
      split_ifs with hany
      · exact List.any_eq_true.1 hany
      · exact ⟨a, by simp, hrefl a⟩

def Apart (under : α → α → Bool) (a b : α) : Prop := under a b = false ∧ under b a = false

instance symm_apart : Std.Symm (Apart under) := ⟨fun _ _ h => ⟨h.2, h.1⟩⟩

theorem reduce_apart (hrefl : ∀ a, under a a) (hsorted : l.Pairwise fun a b => under a b → a = b) :
    (reduce under l).Pairwise (Apart under) := by
  induction l using List.reverseRecOn with
  | nil => exact .nil
  | append_singleton l b ih =>
    rw [List.pairwise_append] at hsorted
    rw [reduce_concat]
    split_ifs with hany
    · exact ih hsorted.1
    · rw [List.any_eq_true, not_exists] at hany
      refine List.pairwise_append.2 ⟨ih hsorted.1, List.pairwise_singleton .., ?_⟩
      rintro a ha c hc
      obtain rfl := List.mem_singleton.1 hc
      have hnot : under c a = false := Bool.eq_false_iff.2 fun hunder => hany a ⟨ha, hunder⟩
      refine ⟨Bool.eq_false_iff.2 fun hunder => ?_, hnot⟩
      have heq := hsorted.2.2 a ((reduce_sublist l).subset ha) c (by simp) hunder
      rw [heq, hrefl] at hnot
      cases hnot

/-- What is kept is what is under nothing else. -/
theorem mem_reduce_iff (hrefl : ∀ a, under a a) (htrans : ∀ a b c, under a b → under b c → under a c)
    (hanti : ∀ a ∈ l, ∀ b ∈ l, under a b → under b a → a = b)
    (hsorted : l.Pairwise fun a b => under a b → a = b) :
    a ∈ reduce under l ↔ a ∈ l ∧ ∀ b ∈ l, under a b → b = a := by
  constructor
  · intro ha
    have hmem := (reduce_sublist l).subset ha
    refine ⟨hmem, fun b hb hab => ?_⟩
    obtain ⟨kept, hkept, hbk⟩ := exists_mem_reduce hrefl hb
    have heq : a = kept := by
      by_contra hne
      have hapart := (reduce_apart hrefl hsorted).forall ha hkept hne
      exact absurd (htrans _ _ _ hab hbk) (by simp [hapart.1])
    exact hanti b hb a hmem (heq ▸ hbk) hab
  · rintro ⟨ha, hleast⟩
    obtain ⟨kept, hkept, hunder⟩ := exists_mem_reduce hrefl ha
    exact hleast kept ((reduce_sublist l).subset hkept) hunder ▸ hkept

theorem nodup_reduce (hrefl : ∀ a, under a a) (hsorted : l.Pairwise fun a b => under a b → a = b) :
    (reduce under l).Nodup := by
  refine (reduce_apart hrefl hsorted).imp ?_
  rintro a _ hapart rfl
  exact absurd (hrefl a) (by simp [hapart.1])

end Kept

/-! ### The shortest first -/

theorem length_codeUnits_lt {s t : String} (h : s.toList <+: t.toList) (hne : s ≠ t) :
    (Runtime.codeUnits s).length < (Runtime.codeUnits t).length := by
  obtain ⟨rest, hrest⟩ := h
  rcases rest with - | ⟨c, rest⟩
  · rw [List.append_nil, String.toList_inj] at hrest
    exact absurd hrest hne
  · have hpos : 0 < (Runtime.codeUnits (String.ofList (c :: rest))).length := by
      simp only [Runtime.codeUnits, String.toList_ofList, List.flatMap_cons, List.length_append]
      split_ifs <;> simp
    have happend : Runtime.codeUnits t = Runtime.codeUnits s ++ Runtime.codeUnits (String.ofList (c :: rest)) := by
      simp only [Runtime.codeUnits, ← hrest, List.flatMap_append, String.toList_ofList]
    rw [happend, List.length_append]
    omega

theorem length_norm_lt {child parent : String} (h : isAtOrUnder child parent) (hne : norm parent ≠ norm child) :
    (Runtime.codeUnits (norm parent)).length < (Runtime.codeUnits (norm child)).length := by
  refine length_codeUnits_lt ?_ hne
  have habove := isAtOrUnder_iff.1 h
  by_cases hparent : stripped parent = []
  · rw [hparent] at habove
    rw [norm_of_stripped_eq_nil hparent] at hne ⊢
    rcases habove with hchild | hprefix
    · exact absurd (norm_of_stripped_eq_nil hchild).symm hne
    · rw [toList_norm (fun hnil => by rw [hnil] at hprefix; exact absurd hprefix.length_le (by simp))]
      exact hprefix
  · have hchild : stripped child ≠ [] := by
      intro hnil
      have hle := habove.prefix.length_le
      rw [hnil, List.length_nil] at hle
      exact hparent (List.length_eq_zero_iff.1 (Nat.le_zero.1 hle))
    rw [toList_norm hparent, toList_norm hchild]
    exact habove.prefix

theorem nodup_eraseDups (n : ℕ) (l : List String) (h : l.length ≤ n) : l.eraseDups.Nodup := by
  induction n generalizing l with
  | zero =>
    obtain rfl := List.length_eq_zero_iff.1 (Nat.le_zero.1 h)
    exact .nil
  | succ n ih =>
    cases l with
    | nil => exact .nil
    | cons a l =>
      have hlength := List.length_filter_le (fun b => !b == a) l
      rw [List.length_cons] at h
      rw [List.eraseDups_cons, List.nodup_cons]
      refine ⟨fun ha => ?_, ih _ (by omega)⟩
      simp [List.mem_eraseDups] at ha

variable {rt : Runtime} {dirs dirs' : List String} {cap : Option ℚ} {root dir : String}

theorem nodup_unique (dirs : List String) : (unique dirs).Nodup :=
  (nodup_eraseDups _ _ le_rfl).filter _

@[simp] theorem mem_unique : dir ∈ unique dirs ↔ ∃ d ∈ dirs, norm d = dir := by
  simp only [unique, List.mem_filter, List.mem_eraseDups, List.mem_map, ne_eq, decide_not, Bool.not_eq_true',
    decide_eq_false_iff_not]
  refine and_iff_left_of_imp ?_
  rintro ⟨d, -, rfl⟩
  exact norm_ne_empty d

theorem norm_of_mem_unique (h : dir ∈ unique dirs) : norm dir = dir := by
  obtain ⟨d, -, rfl⟩ := mem_unique.1 h
  exact norm_norm d

theorem unique_perm (h : ∀ d, d ∈ dirs' ↔ d ∈ dirs) : (unique dirs').Perm (unique dirs) := by
  rw [List.perm_ext_iff_of_nodup (nodup_unique _) (nodup_unique _)]
  intro d
  simp only [mem_unique, h]

section Sorted

variable (hrt : Collates rt.localeCompare [])
include hrt

theorem shortestFirst_pairwise (dirs : List String) :
    (shortestFirst rt (unique dirs)).Pairwise fun a b => isAtOrUnder a b → a = b := by
  refine (pairwise_ranked hrt (unique dirs)).imp_of_mem fun {a b} ha hb hbefore hunder => ?_
  by_contra hne
  have ha' := norm_of_mem_unique (mem_ranked.1 ha)
  have hb' := norm_of_mem_unique (mem_ranked.1 hb)
  have hlt := length_norm_lt hunder (by rw [ha', hb']; exact Ne.symm hne)
  rw [ha', hb'] at hlt
  exact absurd (key_le_of_before hbefore) hlt.not_ge

theorem kept_apart (dirs : List String) : (kept rt dirs).Pairwise (Apart isAtOrUnder) :=
  reduce_apart isAtOrUnder_refl (shortestFirst_pairwise hrt dirs)

theorem mem_kept_iff : dir ∈ kept rt dirs ↔ dir ∈ unique dirs ∧ ∀ d ∈ unique dirs, isAtOrUnder dir d → d = dir := by
  have hanti : ∀ a ∈ shortestFirst rt (unique dirs), ∀ b ∈ shortestFirst rt (unique dirs),
      isAtOrUnder a b → isAtOrUnder b a → a = b := by
    intro a ha b hb hab hba
    rw [← norm_of_mem_unique (mem_ranked.1 ha), ← norm_of_mem_unique (mem_ranked.1 hb)]
    exact isAtOrUnder_antisymm hab hba
  rw [kept, mem_reduce_iff isAtOrUnder_refl (fun _ _ _ => isAtOrUnder_trans) hanti (shortestFirst_pairwise hrt dirs)]
  simp only [shortestFirst, mem_ranked]

theorem kept_perm (h : ∀ d, d ∈ dirs' ↔ d ∈ dirs) : (kept rt dirs').Perm (kept rt dirs) := by
  have hnodup : ∀ dirs, (kept rt dirs).Nodup := fun dirs =>
    nodup_reduce isAtOrUnder_refl (shortestFirst_pairwise hrt dirs)
  rw [List.perm_ext_iff_of_nodup (hnodup _) (hnodup _)]
  intro d
  simp only [mem_kept_iff hrt, (unique_perm h).mem_iff]

end Sorted

theorem exists_kept (rt : Runtime) (h : dir ∈ dirs) : ∃ d ∈ kept rt dirs, isAtOrUnder dir d := by
  have hmem : norm dir ∈ shortestFirst rt (unique dirs) := mem_ranked.2 (mem_unique.2 ⟨dir, h, rfl⟩)
  obtain ⟨d, hd, hunder⟩ := exists_mem_reduce isAtOrUnder_refl hmem
  exact ⟨d, hd, by rwa [isAtOrUnder_norm_left] at hunder⟩

theorem exists_of_mem_kept (h : dir ∈ kept rt dirs) : ∃ d ∈ dirs, norm d = dir :=
  mem_unique.1 (mem_ranked.1 ((reduce_sublist _).subset h))

theorem kept_eq_of_perm (h : Collates rt.localeCompare (dirs.map norm)) (hdirs : ∀ d, d ∈ dirs' ↔ d ∈ dirs) :
    kept rt dirs' = kept rt dirs := by
  have hsubset : (unique dirs).map id ⊆ dirs.map norm := by
    intro d hd
    rw [List.map_id] at hd
    obtain ⟨x, hx, rfl⟩ := mem_unique.1 hd
    exact List.mem_map_of_mem hx
  rw [kept, kept, shortestFirst, shortestFirst, ranked_eq_of_perm (h.subset hsubset)
    (by rw [List.map_id]; exact nodup_unique dirs) (unique_perm hdirs)]

/-! ### The scans -/

/-- The directories that are scanned, for changes under this root. -/
structure Coalesced (dirs : List String) (cap : Option ℚ) (root : String) (targets : List String) : Prop where
  covered : ∀ dir ∈ dirs, ∃ target ∈ targets, isAtOrUnder dir target
  apart : targets.Pairwise (Apart isAtOrUnder)
  within : ∀ target ∈ targets, isAtOrUnder target root
  bounded : targets.length ≤ cap.getD 25

theorem coalesceScanTargets_of_le (h : (kept rt dirs).length ≤ cap.getD 25) (root : Option String) :
    coalesceScanTargets rt dirs cap root = kept rt dirs := by
  unfold coalesceScanTargets
  cases hkept : kept rt dirs with
  | nil => rfl
  | cons first rest =>
    rw [hkept] at h
    exact if_pos h

/-- Past the cap the scan is of the deepest directory that contains all of the changes. -/
theorem coalesceScanTargets_of_lt (h : cap.getD 25 < (kept rt dirs).length) (hcap : 0 ≤ cap.getD 25)
    (hdirs : ∀ dir ∈ dirs, isAbsolute dir ∧ isAtOrUnder dir root) :
    ∃ common, coalesceScanTargets rt dirs cap (some root) = [common] ∧ isAtOrUnder common root ∧
      (∀ dir ∈ kept rt dirs, isAtOrUnder dir common) ∧
        ∀ q, (∀ dir ∈ kept rt dirs, isAtOrUnder dir q) → isAtOrUnder common q := by
  have hkeptdirs : ∀ dir ∈ kept rt dirs, isAbsolute dir ∧ isAtOrUnder dir root := by
    intro dir hdir
    obtain ⟨d, hd, rfl⟩ := exists_of_mem_kept hdir
    exact ⟨isAbsolute_norm (hdirs d hd).1, by rw [isAtOrUnder_norm_left]; exact (hdirs d hd).2⟩
  cases hkept : kept rt dirs with
  | nil =>
    rw [hkept] at h
    exact absurd h (not_lt.2 hcap)
  | cons first rest =>
    rw [hkept] at h hkeptdirs
    have hspec := ancestor_spec rest (hkeptdirs first (by simp)).1 fun dir hdir => (hkeptdirs dir (by simp [hdir])).1
    have hroot := hspec.2.2 root fun dir hdir => (hkeptdirs dir hdir).2
    refine ⟨ancestor first rest, ?_, hroot, hspec.2⟩
    unfold coalesceScanTargets
    rw [hkept]
    dsimp only
    rw [if_neg (not_le.2 h), Option.getD_some]
    split
    · rfl
    · rw [isAtOrUnder_norm_right, if_pos hroot]

theorem coalesced (hrt : Collates rt.localeCompare []) (hcap : 1 ≤ cap.getD 25)
    (hdirs : ∀ dir ∈ dirs, isAbsolute dir ∧ isAtOrUnder dir root) :
    Coalesced dirs cap root (coalesceScanTargets rt dirs cap (some root)) := by
  by_cases hfew : ((kept rt dirs).length : ℚ) ≤ cap.getD 25
  · rw [coalesceScanTargets_of_le hfew]
    refine ⟨fun dir hdir => exists_kept rt hdir, kept_apart hrt dirs, fun target htarget => ?_, hfew⟩
    obtain ⟨d, hd, rfl⟩ := exists_of_mem_kept htarget
    rw [isAtOrUnder_norm_left]
    exact (hdirs d hd).2
  · obtain ⟨common, heq, hroot, habove, -⟩ := coalesceScanTargets_of_lt (not_le.1 hfew) (by linarith) hdirs
    rw [heq]
    refine ⟨fun dir hdir => ⟨common, by simp, ?_⟩, List.pairwise_singleton .., by simpa using hroot, by simpa using hcap⟩
    obtain ⟨d, hd, hunder⟩ := exists_kept rt hdir
    exact isAtOrUnder_trans hunder (habove d hd)

theorem norm_coalesceScanTargets_perm (hrt : Collates rt.localeCompare []) (hcap : 1 ≤ cap.getD 25)
    (hdirs : ∀ dir ∈ dirs, isAbsolute dir ∧ isAtOrUnder dir root) (hsame : ∀ d, d ∈ dirs' ↔ d ∈ dirs) :
    ((coalesceScanTargets rt dirs' cap (some root)).map norm).Perm
      ((coalesceScanTargets rt dirs cap (some root)).map norm) := by
  have hperm := kept_perm hrt hsame
  have hdirs' : ∀ dir ∈ dirs', isAbsolute dir ∧ isAtOrUnder dir root := fun dir hdir => hdirs dir ((hsame dir).1 hdir)
  by_cases hfew : ((kept rt dirs).length : ℚ) ≤ cap.getD 25
  · rw [coalesceScanTargets_of_le hfew, coalesceScanTargets_of_le (hperm.length_eq ▸ hfew)]
    exact hperm.map norm
  · obtain ⟨common, heq, -, habove, hleast⟩ := coalesceScanTargets_of_lt (not_le.1 hfew) (by linarith) hdirs
    obtain ⟨common', heq', -, habove', hleast'⟩ :=
      coalesceScanTargets_of_lt (hperm.length_eq ▸ not_le.1 hfew) (by linarith) hdirs'
    have hnorm : norm common' = norm common := isAtOrUnder_antisymm
      (hleast' common fun dir hdir => habove dir (hperm.mem_iff.1 hdir))
      (hleast common' fun dir hdir => habove' dir (hperm.mem_iff.2 hdir))
    rw [heq, heq', List.map_singleton, List.map_singleton, hnorm]

/-- A burst of changes under a root loses none, and what is scanned depends on which directories
changed and on nothing else; where the collation tells them apart, the order of the scans is one too. -/
theorem coalesceScanTargets_spec (rt : Runtime) (hrt : Collates rt.localeCompare []) (dirs : List String)
    (cap : Option ℚ) (hcap : 1 ≤ cap.getD 25) (root : String)
    (hdirs : ∀ dir ∈ dirs, isAbsolute dir ∧ isAtOrUnder dir root) :
    Coalesced dirs cap root (coalesceScanTargets rt dirs cap (some root)) ∧
      ∀ dirs', (∀ d, d ∈ dirs' ↔ d ∈ dirs) →
        ((coalesceScanTargets rt dirs' cap (some root)).map norm).Perm
          ((coalesceScanTargets rt dirs cap (some root)).map norm) ∧
        (Collates rt.localeCompare (dirs.map norm) →
          coalesceScanTargets rt dirs' cap (some root) = coalesceScanTargets rt dirs cap (some root)) := by
  refine ⟨coalesced hrt hcap hdirs, fun dirs' hsame =>
    ⟨norm_coalesceScanTargets_perm hrt hcap hdirs hsame, fun hcollates => ?_⟩⟩
  unfold coalesceScanTargets
  rw [kept_eq_of_perm hcollates hsame]

theorem coalesceScanTargets_spec_ascii : Collates Runtime.ascii.localeCompare [] ∧
    Coalesced ["/m/a/b/", "/m/ab", "/m/a"] (some 1) "/m"
      (coalesceScanTargets .ascii ["/m/a/b/", "/m/ab", "/m/a"] (some 1) (some "/m")) :=
  ⟨collates_ascii _, (coalesceScanTargets_spec .ascii (collates_ascii _) ["/m/a/b/", "/m/ab", "/m/a"] (some 1) le_rfl
    "/m" (by decide)).1⟩

end UltraTorrent.Media.WatchCoalesce
