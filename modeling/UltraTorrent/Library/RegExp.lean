import UltraTorrent.Library.WhiteSpace

/-! Regular expressions as ECMAScript runs them: a pattern gives the ways to match it from a place in a
text, the first choice first, and a search takes the first way at the leftmost place. -/
namespace UltraTorrent.Library.RegExp

open WhiteSpace

/-- A place in a text, with what the groups before it captured. -/
structure Cursor where
  before : Option Char
  rest : List Char
  groups : List (List Char)

abbrev Pattern := Cursor → List Cursor

/-- `\w`. -/
def isWord (c : Char) : Bool := c.isAlphanum || c = '_'

def one (p : Char → Bool) : Pattern := fun cursor =>
  match cursor.rest with
  | [] => []
  | c :: rest => if p c then [⟨some c, rest, cursor.groups⟩] else []

/-- One of these characters, as they are. -/
def oneOf (chars : String) : Pattern := one chars.toList.contains

def seq : List Pattern → Pattern
  | [] => fun cursor => [cursor]
  | p :: ps => fun cursor => (p cursor).flatMap (seq ps)

def either (ps : List Pattern) : Pattern := fun cursor => ps.flatMap fun p => p cursor

/-- A word in small letters, in whatever case it is written. Without the `u` flag only ASCII letters
have another case. -/
def word (letters : String) : Pattern := seq (letters.toList.map fun l => one fun c => c.toLower = l)

/-- So often at most, as often as possible first. -/
def upTo (p : Pattern) : ℕ → Pattern
  | 0 => fun cursor => [cursor]
  | n + 1 => fun cursor => (p cursor).flatMap (upTo p n) ++ [cursor]

/-- `p{min,max}`. -/
def between (least most : ℕ) (p : Pattern) : Pattern :=
  seq (List.replicate least p ++ [upTo p (most - least)])

/-- `p*`; every turn takes something away. -/
def star (p : Pattern) : Pattern := fun cursor => upTo p cursor.rest.length cursor

/-- `p+`. -/
def plus (p : Pattern) : Pattern := seq [p, star p]

/-- `p?`. -/
def optional (p : Pattern) : Pattern := upTo p 1

/-- `(p)`. -/
def group (p : Pattern) : Pattern := fun cursor => (p cursor).map fun after =>
  { after with groups := cursor.groups ++ [cursor.rest.take (cursor.rest.length - after.rest.length)] }

/-- `\b`. -/
def boundary : Pattern := fun cursor =>
  if cursor.before.any isWord ≠ cursor.rest.head?.any isWord then [cursor] else []

/-- `^`. -/
def start : Pattern := fun cursor => if cursor.before = none then [cursor] else []

/-- `$`. -/
def stop : Pattern := fun cursor => if cursor.rest = [] then [cursor] else []

/-- `(?=p)`. -/
def ahead (p : Pattern) : Pattern := fun cursor => if (p cursor).isEmpty then [] else [cursor]

/-- `\d`. -/
def digit : Pattern := one Char.isDigit

/-- `\s`. -/
def space : Pattern := one isWhiteSpace

/-- What a search finds. -/
structure Found where
  index : ℕ
  text : List Char
  groups : List (List Char)
  rest : List Char

def foundAt (p : Pattern) (index : ℕ) (before : Option Char) (text : List Char) : Option Found :=
  (p ⟨before, text, []⟩).head?.map fun after =>
    ⟨index, text.take (text.length - after.rest.length), after.groups, after.rest⟩

def execFrom (p : Pattern) : ℕ → Option Char → List Char → Option Found
  | index, before, [] => foundAt p index before []
  | index, before, c :: text =>
    (foundAt p index before (c :: text)).or (execFrom p (index + 1) (some c) text)

/-- `p.exec(text)`. -/
def exec (p : Pattern) (text : List Char) : Option Found := execFrom p 0 none text

/-- `p.test(text)`. -/
def test (p : Pattern) (text : List Char) : Bool := (exec p text).isSome

/-- The text as matches and the characters between them, for a pattern that never matches nothing; what
a match covers is skipped. -/
def pieces (p : Pattern) : ℕ → ℕ → Option Char → List Char → List (Char ⊕ Found)
  | _, _, _, [] => []
  | index, skip + 1, _, c :: text => pieces p (index + 1) skip (some c) text
  | index, 0, before, c :: text =>
    match foundAt p index before (c :: text) with
    | none => .inl c :: pieces p (index + 1) 0 (some c) text
    | some found => .inr found :: pieces p (index + 1) (found.text.length - 1) (some c) text

/-- `text.matchAll(p)`. -/
def matchAll (p : Pattern) (text : List Char) : List Found :=
  (pieces p 0 0 none text).filterMap Sum.getRight?

/-- `text.replace(p, f)` with the global flag. -/
def replaceAll (p : Pattern) (f : Found → List Char) (text : List Char) : List Char :=
  (pieces p 0 0 none text).flatMap (Sum.elim (fun c => [c]) f)

/-- Without it. -/
def replaceFirst (p : Pattern) (f : Found → List Char) (text : List Char) : List Char :=
  match exec p text with
  | none => text
  | some found => text.take found.index ++ f found ++ found.rest

/-! ### What a match takes -/

/-- All a match takes is of this kind. -/
def Takes (P : Char → Prop) (p : Pattern) : Prop :=
  ∀ cursor, ∀ after ∈ p cursor, ∃ taken, cursor.rest = taken ++ after.rest ∧ ∀ c ∈ taken, P c

variable {P : Char → Prop} {p q : Pattern} {ps : List Pattern}

theorem takes_one {test : Char → Bool} (h : ∀ c, test c = true → P c) : Takes P (one test) := by
  intro cursor after hafter
  unfold one at hafter
  split at hafter
  · cases hafter
  · rename_i c rest hrest
    split_ifs at hafter with hc
    · obtain rfl := List.mem_singleton.1 hafter
      exact ⟨[c], hrest, List.forall_mem_singleton.2 (h c hc)⟩
    · cases hafter

theorem takes_here (cursor : Cursor) : ∃ taken, cursor.rest = taken ++ cursor.rest ∧ ∀ c ∈ taken, P c :=
  ⟨[], rfl, nofun⟩

theorem takes_then (hp : Takes P p) (hq : Takes P q) : Takes P fun cursor => (p cursor).flatMap q := by
  intro cursor after hafter
  obtain ⟨middle, hmiddle, hafter⟩ := List.mem_flatMap.1 hafter
  obtain ⟨front, hfront, hfrontP⟩ := hp cursor middle hmiddle
  obtain ⟨back, hback, hbackP⟩ := hq middle after hafter
  exact ⟨front ++ back, by rw [hfront, hback, List.append_assoc],
    List.forall_mem_append.2 ⟨hfrontP, hbackP⟩⟩

theorem takes_seq (h : ∀ p ∈ ps, Takes P p) : Takes P (seq ps) := by
  induction ps with
  | nil =>
    intro cursor after hafter
    obtain rfl := List.mem_singleton.1 hafter
    exact takes_here _
  | cons p ps ih =>
    rw [List.forall_mem_cons] at h
    exact takes_then h.1 (ih h.2)

theorem takes_word {letters : String} (h : ∀ c, c.toLower ∈ letters.toList → P c) : Takes P (word letters) := by
  refine takes_seq fun p hp => ?_
  obtain ⟨l, hl, rfl⟩ := List.mem_map.1 hp
  exact takes_one fun c hc => h c (by rwa [of_decide_eq_true hc])

theorem takes_upTo (h : Takes P p) (n : ℕ) : Takes P (upTo p n) := by
  induction n with
  | zero =>
    intro cursor after hafter
    obtain rfl := List.mem_singleton.1 hafter
    exact takes_here _
  | succ n ih =>
    intro cursor after hafter
    rcases List.mem_append.1 hafter with hmore | hhere
    · exact takes_then h ih cursor after hmore
    · obtain rfl := List.mem_singleton.1 hhere
      exact takes_here _

theorem takes_plus (h : Takes P p) : Takes P (plus p) := by
  refine takes_seq (List.forall_mem_cons.2 ⟨h, List.forall_mem_singleton.2 fun cursor => ?_⟩)
  exact takes_upTo h _ cursor

theorem takes_boundary : Takes P boundary := by
  intro cursor after hafter
  unfold boundary at hafter
  split_ifs at hafter
  · obtain rfl := List.mem_singleton.1 hafter
    exact takes_here _
  · cases hafter

/-! ### The leftmost match -/

variable {text front rest : List Char} {index : ℕ} {before : Option Char} {found : Found}

theorem foundAt_spec (h : Takes P p) (hfound : foundAt p index before text = some found) :
    found.index = index ∧ text = found.text ++ found.rest ∧ ∀ c ∈ found.text, P c := by
  obtain ⟨after, hafter, rfl⟩ := Option.map_eq_some_iff.1 hfound
  obtain ⟨taken, htaken, hP⟩ := h _ after (List.mem_of_mem_head? hafter)
  dsimp only at htaken ⊢
  have htake : text.take (text.length - after.rest.length) = taken := by
    rw [htaken, List.length_append, Nat.add_sub_cancel, List.take_left]
  exact ⟨rfl, by rw [htake, htaken], by rwa [htake]⟩

/-- A search finds the first place where there is a match, so no later one than a match it is shown. -/
theorem execFrom_spec (h : Takes P p) (hmatch : ∀ i b, (foundAt p i b rest).isSome = true) :
    ∃ found skipped, execFrom p index before (front ++ rest) = some found ∧
      front ++ rest = skipped ++ (found.text ++ found.rest) ∧ found.index = index + skipped.length ∧
      skipped.length ≤ front.length ∧ ∀ c ∈ found.text, P c := by
  induction front generalizing index before with
  | nil =>
    obtain ⟨found, hfound⟩ := Option.isSome_iff_exists.1 (hmatch index before)
    obtain ⟨hindex, htext, hP⟩ := foundAt_spec h hfound
    refine ⟨found, [], ?_, htext, hindex, le_rfl, hP⟩
    cases rest with
    | nil => exact hfound
    | cons c rest => rw [List.nil_append, execFrom, hfound, Option.some_or]
  | cons c front ih =>
    rw [List.cons_append, execFrom]
    cases hfound : foundAt p index before (c :: (front ++ rest)) with
    | some found =>
      obtain ⟨hindex, htext, hP⟩ := foundAt_spec h hfound
      exact ⟨found, [], rfl, htext, hindex, Nat.zero_le _, hP⟩
    | none =>
      obtain ⟨found, skipped, hexec, htext, hindex, hlength, hP⟩ := @ih (index + 1) (some c)
      refine ⟨found, c :: skipped, ?_, by rw [htext, List.cons_append], ?_, ?_, hP⟩
      · rw [Option.none_or, hexec]
      · rw [hindex, List.length_cons]
        omega
      · rw [List.length_cons, List.length_cons]
        omega

end UltraTorrent.Library.RegExp
