import Mathlib.Algebra.Order.Group.Int
import Mathlib.Data.List.Infix
import Mathlib.Data.Rat.Defs
import Mathlib.Tactic.SplitIfs
import UltraTorrent.Library.Segments

/-! The part of ECMAScript's string functions the services name files with. -/
namespace UltraTorrent.Library.Text

open Segments

/-- `/\.[^.]+$/`: a name from its last dot on, as long as something follows it. -/
def extension (name : String) : String :=
  let after := (name.toList.reverse.takeWhile (· ≠ '.')).reverse
  if after = [] ∨ after.length = name.length then "" else .ofList ('.' :: after)

/-- A name without its extension. -/
def stem (name : String) : String :=
  .ofList (name.toList.take (name.length - (extension name).length))

/-- What stands before the first occurrence of a pattern, and what stands behind it. -/
def splitOnce (pattern : List Char) : List Char → Option (List Char × List Char)
  | [] => if pattern = [] then some ([], []) else none
  | c :: rest =>
    if pattern.isPrefixOf (c :: rest) then some ([], (c :: rest).drop pattern.length)
    else (splitOnce pattern rest).map fun parts => (c :: parts.1, parts.2)

theorem eq_of_splitOnce {pattern text l r : List Char} (h : splitOnce pattern text = some (l, r)) :
    text = l ++ pattern ++ r := by
  induction text generalizing l with
  | nil =>
    unfold splitOnce at h
    split_ifs at h with hp
    cases h
    rw [hp]
    rfl
  | cons c rest ih =>
    unfold splitOnce at h
    split_ifs at h with hp
    · cases h
      obtain ⟨tail, htail⟩ := List.isPrefixOf_iff_prefix.1 hp
      rw [List.nil_append, ← htail, List.drop_left]
    · obtain ⟨⟨l', r'⟩, hparts, heq⟩ := Option.map_eq_some_iff.1 h
      cases heq
      rw [ih hparts]
      rfl

/-- The occurrence that is found is the first one. -/
theorem splitOnce_append (pattern l r : List Char) :
    ∃ l' x r', splitOnce pattern (l ++ pattern ++ r) = some (l', r') ∧ l = l' ++ x := by
  induction l with
  | nil =>
    refine ⟨[], [], r, ?_, rfl⟩
    rw [List.nil_append]
    cases htext : pattern ++ r with
    | nil =>
      obtain ⟨rfl, rfl⟩ := List.append_eq_nil_iff.1 htext
      rfl
    | cons c rest =>
      rw [splitOnce, if_pos, ← htext, List.drop_left]
      exact List.isPrefixOf_iff_prefix.2 ⟨r, htext⟩
  | cons c l ih =>
    obtain ⟨l', x, r', hparts, rfl⟩ := ih
    rw [List.cons_append, List.cons_append, splitOnce]
    split_ifs
    · exact ⟨[], c :: (l' ++ x), _, rfl, rfl⟩
    · exact ⟨c :: l', x, r', by rw [hparts, Option.map_some], rfl⟩

/-- A replacement text, in which a dollar sign calls for itself, for the match, or for what stands
before or behind the match. -/
def expand (before pattern after : List Char) : List Char → List Char
  | [] => []
  | [c] => [c]
  | c :: d :: rest =>
    if c ≠ '$' then c :: expand before pattern after (d :: rest)
    else if d = '$' then '$' :: expand before pattern after rest
    else if d = '&' then pattern ++ expand before pattern after rest
    else if d = Char.ofNat 96 then before ++ expand before pattern after rest
    else if d = Char.ofNat 39 then after ++ expand before pattern after rest
    else c :: expand before pattern after (d :: rest)

/-- `text.replace(pattern, replacement)` for a pattern that is a string. -/
def replace (text pattern replacement : String) : String :=
  match splitOnce pattern.toList text.toList with
  | none => text
  | some (before, after) => .ofList
    (before ++ expand before pattern.toList after replacement.toList ++ after)

example : extension "Movie (2026).eng.srt" = ".srt" := by decide +kernel

example : replace "Film.srt" "Film" "Film [dup2]" = "Film [dup2].srt" := by decide +kernel

theorem free_of_notMem {c : Char} {chars : List Char} (h : c ∉ chars) :
    Free (fun d => decide (d = c)) chars :=
  fun _ hd => decide_eq_false fun heq => h (heq ▸ hd)

theorem follows_cons (c : Char) (chars : List Char) : Follows (fun d => decide (d = c)) (c :: chars) := by
  intro d hd
  rw [← Option.mem_some_iff.1 hd]
  exact decide_eq_true rfl

/-- A text with a mark in it is split at the first one. -/
theorem marked_inj {mark front front' rest rest' : String} {c : Char} (hmark : mark.toList = [c])
    (hfront : c ∉ front.toList) (hfront' : c ∉ front'.toList) :
    front ++ mark ++ rest = front' ++ mark ++ rest' ↔ front = front' ∧ rest = rest' := by
  refine ⟨fun h => ?_, fun ⟨hfronts, hrests⟩ => by rw [hfronts, hrests]⟩
  have hchars := congrArg String.toList h
  simp only [String.toList_append, List.append_assoc, hmark] at hchars
  obtain ⟨hfronts, hrests⟩ := segment_unique (free_of_notMem hfront) (free_of_notMem hfront')
    (follows_cons c rest.toList) (follows_cons c rest'.toList) hchars
  exact ⟨String.toList_inj.1 hfronts, String.toList_inj.1 (List.cons.inj hrests).2⟩

theorem marked_inj_last {mark front front' rest rest' : String} {c : Char} (hmark : mark.toList = [c])
    (hrest : c ∉ rest.toList) (hrest' : c ∉ rest'.toList) :
    front ++ mark ++ rest = front' ++ mark ++ rest' ↔ front = front' ∧ rest = rest' := by
  refine ⟨fun h => ?_, fun ⟨hfronts, hrests⟩ => by rw [hfronts, hrests]⟩
  have hchars := congrArg (fun s => s.toList.reverse) h
  simp only [String.toList_append, List.reverse_append, List.append_assoc, hmark,
    List.singleton_append, List.reverse_cons] at hchars
  obtain ⟨hrests, hfronts⟩ := segment_unique
    (free_of_notMem (List.mem_reverse.not.2 hrest)) (free_of_notMem (List.mem_reverse.not.2 hrest'))
    (follows_cons c front.toList.reverse) (follows_cons c front'.toList.reverse) hchars
  exact ⟨String.toList_inj.1 (List.reverse_injective (List.cons.inj hfronts).2),
    String.toList_inj.1 (List.reverse_injective hrests)⟩

/-! ### Numbers -/

theorem toDigits_injective {m n : ℕ} (h : Nat.toDigits 10 m = Nat.toDigits 10 n) : m = n := by
  rw [← Nat.ofDigitChars_ten_toDigits (n := m), h, Nat.ofDigitChars_ten_toDigits]

theorem dash_notMem_toDigits (n : ℕ) : '-' ∉ Nat.toDigits 10 n := fun h =>
  absurd (Nat.isDigit_of_mem_toDigits (by decide) (by decide) h) (by decide)

theorem toList_repr (a : ℤ) : a.repr.toList =
    if 0 ≤ a then Nat.toDigits 10 a.toNat else '-' :: Nat.toDigits 10 (-a).toNat := by
  rw [Int.repr_eq_if]
  split_ifs
  · exact Nat.toList_repr
  · rw [String.toList_append, Nat.toList_repr]
    rfl

theorem notMem_repr {c : Char} (hdigit : c.isDigit = false) (hdash : c ≠ '-') (a : ℤ) :
    c ∉ a.repr.toList := by
  have hdigits : ∀ n, c ∉ Nat.toDigits 10 n := by
    intro n h
    have hc := Nat.isDigit_of_mem_toDigits (by decide) (by decide) h
    rw [hdigit] at hc
    cases hc
  rw [toList_repr]
  split_ifs
  · exact hdigits _
  · simp [hdash, hdigits]

theorem toDigits_append_injective {m n : ℕ} {s t : List Char}
    (h : Nat.toDigits 10 m ++ '-' :: s = Nat.toDigits 10 n ++ '-' :: t) : m = n ∧ s = t := by
  obtain ⟨hdigits, hrest⟩ := segment_unique (free_of_notMem (dash_notMem_toDigits m))
    (free_of_notMem (dash_notMem_toDigits n)) (follows_cons '-' s) (follows_cons '-' t) h
  exact ⟨toDigits_injective hdigits, (List.cons.inj hrest).2⟩

theorem toDigits_append_ne_dash {n : ℕ} {s t : List Char} : Nat.toDigits 10 n ++ s ≠ '-' :: t := by
  intro h
  cases hdigits : Nat.toDigits 10 n with
  | nil => exact Nat.toDigits_ne_nil hdigits
  | cons c digits =>
    rw [hdigits, List.cons_append, List.cons.injEq] at h
    exact dash_notMem_toDigits n (by simp [hdigits, h.1])

theorem toList_repr_injective {a b : ℤ} (h : a.repr.toList = b.repr.toList) : a = b := by
  rw [toList_repr, toList_repr] at h
  split_ifs at h
  · have := toDigits_injective h
    omega
  · exact absurd ((List.append_nil _).trans h) toDigits_append_ne_dash
  · exact absurd ((List.append_nil _).trans h.symm) toDigits_append_ne_dash
  · have := toDigits_injective (List.cons.inj h).2
    omega

theorem dashed_injective {a b c d : ℤ}
    (h : a.repr ++ "-" ++ b.repr = c.repr ++ "-" ++ d.repr) : a = c ∧ b = d := by
  have hchars := congrArg String.toList h
  rw [String.toList_append, String.toList_append, String.toList_append, String.toList_append,
    List.append_assoc, List.append_assoc, toList_repr a, toList_repr c] at hchars
  change _ ++ '-' :: b.repr.toList = _ ++ '-' :: d.repr.toList at hchars
  split_ifs at hchars
  · obtain ⟨hac, hbd⟩ := toDigits_append_injective hchars
    exact ⟨by omega, toList_repr_injective hbd⟩
  · exact absurd hchars toDigits_append_ne_dash
  · exact absurd hchars.symm toDigits_append_ne_dash
  · obtain ⟨hac, hbd⟩ := toDigits_append_injective (List.cons.inj hchars).2
    exact ⟨by omega, toList_repr_injective hbd⟩

theorem toString_rat (q : ℚ) : (toString q : String) =
    if q.den = 1 then q.num.repr else q.num.repr ++ "/" ++ (q.den : ℤ).repr := by
  show (if q.den = 1 then toString q.num else _) = _
  split_ifs <;> rfl

theorem notMem_toString_rat {c : Char} (hdigit : c.isDigit = false) (hdash : c ≠ '-')
    (hslash : c ≠ '/') (q : ℚ) : c ∉ (toString q : String).toList := by
  have hint := notMem_repr hdigit hdash
  rw [toString_rat]
  split_ifs
  · exact hint _
  · simp [String.toList_append, hint, hslash]

theorem toString_rat_injective {p q : ℚ} (h : (toString p : String) = toString q) : p = q := by
  have hslash : ∀ a : ℤ, '/' ∉ a.repr.toList := notMem_repr (by decide) (by decide)
  have hwhole : ∀ a b : ℤ, ∀ d : ℕ, a.repr ≠ b.repr ++ "/" ++ (d : ℤ).repr := by
    intro a b d heq
    have ha := hslash a
    rw [heq] at ha
    simp at ha
  rw [toString_rat, toString_rat] at h
  split_ifs at h with hp hq hq
  · exact Rat.ext (toList_repr_injective (congrArg String.toList h)) (hp.trans hq.symm)
  · exact absurd h (hwhole _ _ _)
  · exact absurd h.symm (hwhole _ _ _)
  · obtain ⟨hnum, hden⟩ := (marked_inj (by rfl) (hslash _) (hslash _)).1 h
    have hden := toList_repr_injective (congrArg String.toList hden)
    exact Rat.ext (toList_repr_injective (congrArg String.toList hnum)) (by omega)

end UltraTorrent.Library.Text
