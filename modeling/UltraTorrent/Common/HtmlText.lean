import Mathlib.Data.List.TakeWhile
import UltraTorrent.Library.Replacement

/-! A provider's HTML fragment as plain text: tags are taken out, entities are decoded, and the tags
that this may have made are taken out again. -/
namespace UltraTorrent.Common.HtmlText

open Library.Replacement

/-- Repeats a rewrite until it stops changing the text, or the budget runs out. -/
def toFixpoint (step : List Char → List Char) : ℕ → List Char → List Char
  | 0, current => current
  | budget + 1, current =>
    let next := step current
    if next = current then current else toFixpoint step budget next

/-- `/<[^>]*>/`. -/
def tag : Matcher Char Unit
  | [] => none
  | c :: text =>
    if c = '<' then
      match text.dropWhile (· ≠ '>') with
      | [] => none
      | _ :: rest => some ((), rest)
    else none

/-- One pass. -/
def removeTags (text : List Char) : List Char := replaceAll tag (fun _ => []) text

def stripTags (input : List Char) : List Char := toFixpoint removeTags 8 input

/-- A pattern without metacharacters. -/
def literal (pattern : String) : Matcher Char Unit := fun text =>
  if pattern.toList.isPrefixOf text then some ((), text.drop pattern.length) else none

/-- `/&#0*39;/`. -/
def apostrophe : Matcher Char Unit := fun text =>
  (literal "&#" text).bind fun found => literal "39;" (found.2.dropWhile (· = '0'))

/-- The ampersand is decoded last, so that nothing is decoded twice. -/
def decodeEntities (input : List Char) : List Char :=
  let text := replaceAll (literal "&lt;") (fun _ => ['<']) input
  let text := replaceAll (literal "&gt;") (fun _ => ['>']) text
  let text := replaceAll (literal "&quot;") (fun _ => [Char.ofNat 34]) text
  let text := replaceAll apostrophe (fun _ => [Char.ofNat 39]) text
  let text := replaceAll (literal "&apos;") (fun _ => [Char.ofNat 39]) text
  let text := replaceAll (literal "&nbsp;") (fun _ => [' ']) text
  replaceAll (literal "&amp;") (fun _ => ['&']) text

def htmlToText (input : List Char) : List Char := stripTags (decodeEntities (stripTags input))

/-- A `<` is followed later by a `>`. -/
def Markup (text : List Char) : Prop := ['<', '>'].Sublist text

instance (text : List Char) : Decidable (Markup text) := inferInstanceAs (Decidable (List.Sublist _ _))

/-! ### One pass over the tags -/

variable {text rest : List Char} {c : Char}

theorem consumes_tag : Consumes tag := by
  intro text b rest h
  cases text with
  | nil => cases h
  | cons c text =>
    simp only [tag] at h
    split_ifs at h with hc
    split at h
    · cases h
    · rename_i d behind hdrop
      cases h
      refine ⟨c :: (text.takeWhile (· ≠ '>') ++ [d]), List.cons_ne_nil _ _, ?_⟩
      rw [List.cons_append, List.append_assoc, List.singleton_append, ← hdrop,
        List.takeWhile_append_dropWhile]

/-- What is left standing is no `<`, or nothing closes it. -/
theorem tag_eq_none : tag (c :: text) = none ↔ c = '<' → '>' ∉ text := by
  have hdrop : text.dropWhile (· ≠ '>') = [] ↔ '>' ∉ text := by
    rw [List.dropWhile_eq_nil_iff]
    refine ⟨fun h hmem => by simpa using h '>' hmem, fun h d hd => ?_⟩
    exact decide_eq_true fun heq => h (heq ▸ hd)
  by_cases hc : c = '<'
  · rw [← hdrop, tag, if_pos hc]
    cases text.dropWhile (· ≠ '>') <;> simp [hc]
  · simp [tag, hc]

theorem markup_cons : Markup (c :: text) ↔ c = '<' ∧ '>' ∈ text ∨ Markup text := by
  rw [Markup, Markup, List.sublist_cons_iff, or_comm]
  simp [eq_comm]

theorem mem_of_mem_removeTags (h : c ∈ removeTags text) : c ∈ text :=
  forall_replaceAll (P := (· ∈ text)) consumes_tag (fun _ _ _ hc => hc) (fun _ => by simp) c h

/-- A match reaches from the first `<` to the nearest `>`, however tags are nested, so one pass leaves
none. -/
theorem not_markup_removeTags (text : List Char) : ¬ Markup (removeTags text) := by
  induction hn : text.length using Nat.strong_induction_on generalizing text with
  | h n ih =>
    cases text with
    | nil => decide
    | cons c text =>
      cases h : tag (c :: text) with
      | none =>
        rw [removeTags, replaceAll_cons h, ← removeTags, markup_cons, not_or, not_and]
        have hlt : text.length < n := by simp [← hn]
        exact ⟨fun hc hmem => tag_eq_none.1 h hc (mem_of_mem_removeTags hmem), ih _ hlt text rfl⟩
      | some found =>
        obtain ⟨front, hfront, hsplit⟩ := consumes_tag _ _ _ h
        have hlt : found.2.length < n := by
          have := List.length_pos_of_ne_nil hfront
          rw [← hn, hsplit, List.length_append]
          omega
        rw [removeTags, replaceAll_match consumes_tag h, List.nil_append]
        exact ih _ hlt found.2 rfl

theorem removeTags_of_not_markup (h : ¬ Markup text) : removeTags text = text := by
  induction text with
  | nil => rfl
  | cons c text ih =>
    rw [markup_cons, not_or, not_and] at h
    rw [removeTags, replaceAll_cons (tag_eq_none.2 h.1), ← removeTags, ih h.2]

/-! ### Fixpoints -/

theorem toFixpoint_eq {step : List Char → List Char} {input : List Char}
    (h : step (step input) = step input) (budget : ℕ) :
    toFixpoint step (budget + 1) input = step input := by
  unfold toFixpoint
  extract_lets next
  split_ifs with hstop
  · exact hstop.symm
  · cases budget with
    | zero => rfl
    | succ budget => rw [toFixpoint, h, if_pos rfl]

theorem stripTags_eq (input : List Char) : stripTags input = removeTags input :=
  toFixpoint_eq (removeTags_of_not_markup (not_markup_removeTags input)) 7

/-- Of an HTML fragment no markup survives, and stripping tags has reached a fixpoint when it returns:
neither another pass nor stripping them again changes anything. -/
theorem htmlToText_plain : (∀ input, ¬ Markup (htmlToText input)) ∧
    ∀ input, removeTags (stripTags input) = stripTags input ∧
      stripTags (stripTags input) = stripTags input := by
  have hfixed : ∀ input, removeTags (stripTags input) = stripTags input := fun input => by
    rw [stripTags_eq, removeTags_of_not_markup (not_markup_removeTags input)]
  refine ⟨fun input => ?_, fun input => ⟨hfixed input, ?_⟩⟩
  · rw [htmlToText, stripTags_eq (decodeEntities _)]
    exact not_markup_removeTags _
  · rw [stripTags_eq (stripTags input), hfixed input]

example : htmlToText "a <scr<script>ipt> &amp;lt;b&gt; &#0039;&lt;i&gt;".toList =
    "a ipt> &lt;b> '".toList := by decide +kernel

end UltraTorrent.Common.HtmlText
