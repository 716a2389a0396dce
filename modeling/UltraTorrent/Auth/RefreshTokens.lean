import Mathlib.Data.Fintype.Basic
import UltraTorrent.Library.EcmaScript
import UltraTorrent.Library.Interleaving
import UltraTorrent.Library.Table

/-! Refresh tokens. A token is spent for another of its family, and one that is presented again
burns the family. Every call of the database is an action of its own, and any of them may throw. -/
namespace UltraTorrent.Auth.RefreshTokens

open Library Library.EcmaScript Library.Interleaving

structure RefreshToken where
  tokenHash : String
  userId : String
  family : String
  expiresAt : Instant
  revokedAt : Option Instant
  deriving DecidableEq

structure Store where
  tokens : Table RefreshToken RefreshToken.tokenHash
  isActive : String → Bool

/-- Where a call stands, with what it has read. -/
inductive Call where
  | login (userId : String)
  | refresh (rawToken : String)
  | burning (family : String)
  | rotating (stored : RefreshToken)
  | loading (stored : RefreshToken)
  | offboarding (userId : String)
  | issuing (userId : String) (family : Option String)
  | logout (rawToken : String)
  | changePassword (userId : String)
  | revokingAll (userId : String)
  | setActive (userId : String) (isActive : Bool)
  | burned (family : String)
  | returned (refreshToken : String)
  | done
  | threw (message : String)
  deriving DecidableEq

/-- What an action is answered with: an error it throws, the clock, what is drawn at random, and whether
the password and the code are right. -/
structure Answer where
  error : Option String := none
  now : Instant := 0
  family : String := ""
  secret : String := ""
  verified : Bool := true

/-- `rawToken.split('.')`, the first two parts. -/
def splitToken (rawToken : String) : String × String :=
  match (rawToken.toList.splitOn '.').map String.ofList with
  | family :: secret :: _ => (family, secret)
  | [family] => (family, "")
  | [] => ("", "")

def revokeIf (p : RefreshToken → Bool) (now : Instant) (row : RefreshToken) : RefreshToken :=
  { row with revokedAt := if p row then some now else row.revokedAt }

/-- `updateMany` with a date in `revokedAt`. -/
def Store.revoke (s : Store) (p : RefreshToken → Bool) (now : Instant) : Store :=
  { s with tokens := s.tokens.update (revokeIf p now) }

variable (hash : String → String) (ttl : Instant)

/-- What `refresh` makes of the row it has found. -/
def admission (family : String) (now : Instant) : Option RefreshToken → Call
  | none => .threw "Invalid refresh token"
  | some stored =>
    if stored.family ≠ family then .threw "Invalid refresh token"
    else if stored.revokedAt.isSome then .burning family
    else if stored.expiresAt < now then .threw "Refresh token expired"
    else .rotating stored

/-- Where nothing catches it, an error is what the call ends with. -/
def answered (s : Store) (answer : Answer) (next : Store × Call) : Store × Call :=
  match answer.error with
  | some message => (s, .threw message)
  | none => next

/-- One action of a call; `none` when it has returned. A family is drawn that no row is of. -/
def act (s : Store) (call : Call) (answer : Answer) : Option (Store × Call) :=
  match call with
  | .login userId =>
    some (answered s answer (s, if answer.verified && s.isActive userId then .issuing userId none
      else .threw "Invalid credentials"))
  | .refresh rawToken =>
    if (splitToken rawToken).1 = "" ∨ (splitToken rawToken).2 = "" then some (s, .threw "Malformed refresh token")
    else some (answered s answer
      (s, admission (splitToken rawToken).1 answer.now (s.tokens.find (hash (splitToken rawToken).2))))
  | .burning family =>
    some (answered s answer
      (s.revoke (fun row => row.family = family && row.revokedAt.isNone) answer.now, .burned family))
  | .rotating stored =>
    some (answered s answer (s.revoke (fun row => row.tokenHash = stored.tokenHash) answer.now, .loading stored))
  | .loading stored =>
    some (answered s answer (s, if s.isActive stored.userId then .issuing stored.userId (some stored.family)
      else .offboarding stored.userId))
  | .offboarding userId =>
    some (answered s answer
      (s.revoke (fun row => row.userId = userId && row.revokedAt.isNone) answer.now, .threw "Account is disabled"))
  | .issuing userId family =>
    if family = none ∧ ∃ row ∈ s.tokens.rows, row.family = answer.family then none
    else some (answered s answer (match s.tokens.insert [{
        tokenHash := hash answer.secret
        userId := userId
        family := family.getD answer.family
        expiresAt := answer.now + ttl
        revokedAt := none }] with
      | some tokens => ({ s with tokens := tokens }, .returned (family.getD answer.family ++ "." ++ answer.secret))
      | none => (s, .threw "Unique constraint failed")))
  | .logout rawToken =>
    if (splitToken rawToken).2 = "" then some (s, .done)
    else some (answered s answer (s.revoke (fun row => row.tokenHash = hash (splitToken rawToken).2 &&
      row.family = (splitToken rawToken).1) answer.now, .done))
  | .changePassword userId =>
    some (answered s answer (s, if answer.verified then .revokingAll userId
      else .threw "Current password is incorrect"))
  | .revokingAll userId =>
    some (answered s answer
      (s.revoke (fun row => row.userId = userId && row.revokedAt.isNone) answer.now, .done))
  | .setActive userId isActive =>
    some (answered s answer ({ s with isActive := Function.update s.isActive userId isActive },
      if isActive then .done else .revokingAll userId))
  | .burned _ | .returned _ | .done | .threw _ => none

/-! ### What one action does -/

def Call.family : Call → Option String
  | .burning family | .burned family => some family
  | .rotating stored | .loading stored => some stored.family
  | .issuing _ family => family
  | _ => none

/-- A call that will issue a token of its family if nothing stops it. -/
def Call.isHolding : Call → Bool
  | .rotating _ | .loading _ | .issuing _ _ => true
  | _ => false

def Call.isBurned : Call → Bool
  | .burned _ => true
  | _ => false

/-- No token comes alive, and no family is forgotten. -/
structure Quieter (s s' : Store) : Prop where
  live : ∀ row ∈ s'.tokens.rows, row.revokedAt = none → row ∈ s.tokens.rows
  known : ∀ row ∈ s.tokens.rows, ∃ row' ∈ s'.tokens.rows, row'.family = row.family

variable {hash ttl} {s s' : Store} {call call' : Call} {answer : Answer} {next : Store × Call} {p : RefreshToken → Bool}
  {now : Instant} {userId f : String} {drawn : Option String} {row stored : RefreshToken}

theorem Quieter.refl (s : Store) : Quieter s s := ⟨fun _ h _ => h, fun row h => ⟨row, h, rfl⟩⟩

theorem mem_revoke : row ∈ (s.revoke p now).tokens.rows ↔ ∃ old ∈ s.tokens.rows, revokeIf p now old = row := List.mem_map

theorem revokeIf_of_live (hlive : (revokeIf p now row).revokedAt = none) :
    revokeIf p now row = row ∧ p row = false := by
  unfold revokeIf at hlive ⊢
  dsimp only at hlive
  split_ifs at hlive with hp
  simp [hp]

theorem revoke_quieter : Quieter s (s.revoke p now) := by
  refine ⟨fun row hrow hlive => ?_, fun row hrow => ⟨_, mem_revoke.2 ⟨row, hrow, rfl⟩, rfl⟩⟩
  obtain ⟨old, hold, rfl⟩ := mem_revoke.1 hrow
  rw [(revokeIf_of_live hlive).1]
  exact hold

/-- A row that is alive after a revocation is not one it was for. -/
theorem not_of_live (hrow : row ∈ (s.revoke p now).tokens.rows) (hlive : row.revokedAt = none) : p row = false := by
  obtain ⟨old, -, rfl⟩ := mem_revoke.1 hrow
  obtain ⟨heq, hp⟩ := revokeIf_of_live hlive
  rw [heq]
  exact hp

theorem answered_cases (s : Store) (answer : Answer) (next : Store × Call) :
    answered s answer next = next ∨ ∃ message, answered s answer next = (s, .threw message) := by
  unfold answered
  cases answer.error with
  | none => exact .inl rfl
  | some message => exact .inr ⟨message, rfl⟩

theorem answered_eq (h : answered s answer next = (s', call')) (hcall : ∀ message, call' ≠ .threw message) :
    next = (s', call') := by
  rcases answered_cases s answer next with heq | ⟨message, heq⟩ <;> rw [heq] at h
  · exact h
  · cases h
    exact absurd rfl (hcall message)

theorem act_quieter (h : act hash ttl s call answer = some (s', call')) (hcall : ∀ userId drawn, call ≠ .issuing userId drawn) :
    Quieter s s' := by
  have hsame : ∀ {store next}, answered s answer (store, next) = (s', call') → Quieter s store → Quieter s s' := by
    intro store next hanswered hquieter
    rcases answered_cases s answer (store, next) with heq | ⟨message, heq⟩ <;>
      rw [heq] at hanswered <;> cases hanswered
    · exact hquieter
    · exact .refl s
  cases call <;> simp only [act, Option.some.injEq, reduceCtorEq] at h
  case refresh =>
    split_ifs at h
    · cases h
      exact .refl s
    · exact hsame (Option.some.inj h) (.refl s)
  case login | loading | changePassword => exact hsame h (.refl s)
  case burning | rotating | offboarding | revokingAll => exact hsame h revoke_quieter
  case issuing userId drawn => exact absurd rfl (hcall userId drawn)
  case logout =>
    split_ifs at h
    · cases h
      exact .refl s
    · exact hsame (Option.some.inj h) revoke_quieter
  case setActive => exact hsame h ⟨fun _ h _ => h, fun row h => ⟨row, h, rfl⟩⟩

theorem act_issuing (h : act hash ttl s (.issuing userId drawn) answer = some (s', call')) :
    call'.family = none ∧ call'.isHolding = false ∧ (s' = s ∨ ∃ row, row.userId = userId ∧ row.family = drawn.getD answer.family ∧
      (drawn = none → ∀ old ∈ s.tokens.rows, old.family ≠ row.family) ∧
      s'.tokens.rows = s.tokens.rows ++ [row] ∧ s'.isActive = s.isActive) := by
  rw [act] at h
  split_ifs at h with hdrawn
  rcases answered_cases s answer _ with heq | ⟨message, heq⟩ <;> rw [heq] at h
  · cases hinsert : s.tokens.insert [_] with
    | none =>
      rw [hinsert] at h
      cases h
      exact ⟨rfl, rfl, .inl rfl⟩
    | some tokens =>
      rw [hinsert] at h
      cases h
      refine ⟨rfl, rfl, .inr ⟨_, rfl, rfl, fun hnone old hold heq => hdrawn ⟨hnone, old, hold, ?_⟩, Table.rows_of_insert hinsert, rfl⟩⟩
      rw [heq, hnone]
      rfl
  · cases h
    exact ⟨rfl, rfl, .inl rfl⟩

theorem act_family (h : act hash ttl s call answer = some (s', call')) (hfamily : call'.family = some f) :
    (∃ rawToken, call = .refresh rawToken ∧ (splitToken rawToken).1 = f ∧ s' = s ∧ ∃ stored ∈ s.tokens.rows,
      stored.family = f ∧ (call' = .burning f ∨ call' = .rotating stored ∧ stored.revokedAt = none)) ∨
    (call = .burning f ∧ call' = .burned f ∧ s' = s.revoke (fun row => row.family = f && row.revokedAt.isNone) answer.now) ∨
    ∃ stored, stored.family = f ∧
      ((call = .rotating stored ∧ call' = .loading stored ∧
          s' = s.revoke (fun row => row.tokenHash = stored.tokenHash) answer.now) ∨
        (call = .loading stored ∧ call' = .issuing stored.userId (some f) ∧ s' = s)) := by
  have hnext : ∀ {next}, answered s answer next = (s', call') → next = (s', call') := by
    intro next hanswered
    refine answered_eq hanswered ?_
    rintro message rfl
    cases hfamily
  cases call with
  | refresh rawToken =>
    rw [act] at h
    split_ifs at h
    · cases h
      cases hfamily
    · have hadmitted := hnext (Option.some.inj h)
      refine .inl ⟨rawToken, rfl, ?_⟩
      unfold admission at hadmitted
      cases hfind : s.tokens.find (hash (splitToken rawToken).2) with
      | none =>
        rw [hfind] at hadmitted
        cases hadmitted
        cases hfamily
      | some stored =>
        have hmem := (Table.find_eq_some.1 hfind).1
        rw [hfind] at hadmitted
        dsimp only at hadmitted
        split_ifs at hadmitted with hother hrevoked hexpired <;> cases hadmitted <;> cases hfamily
        · rw [not_not] at hother
          exact ⟨rfl, rfl, stored, hmem, hother, .inl rfl⟩
        · rw [not_not] at hother
          exact ⟨hother.symm, rfl, stored, hmem, rfl, .inr ⟨rfl, by simpa using hrevoked⟩⟩
  | burning family =>
    cases hnext (Option.some.inj h)
    cases hfamily
    exact .inr (.inl ⟨rfl, rfl, rfl⟩)
  | rotating stored =>
    cases hnext (Option.some.inj h)
    cases hfamily
    exact .inr (.inr ⟨stored, rfl, .inl ⟨rfl, rfl, rfl⟩⟩)
  | loading stored =>
    have hloaded := hnext (Option.some.inj h)
    split_ifs at hloaded <;> cases hloaded <;> cases hfamily
    exact .inr (.inr ⟨stored, rfl, .inr ⟨rfl, rfl, rfl⟩⟩)
  | issuing userId drawn =>
    rw [(act_issuing h).1] at hfamily
    cases hfamily
  | login | changePassword | setActive =>
    have hread := hnext (Option.some.inj h)
    split_ifs at hread <;> cases hread <;> cases hfamily
  | logout rawToken =>
    rw [act] at h
    split_ifs at h
    · cases h
      cases hfamily
    · cases hnext (Option.some.inj h)
      cases hfamily
  | offboarding | revokingAll =>
    cases hnext (Option.some.inj h)
    cases hfamily
  | burned | returned | done | threw => cases h

/-! ### A family that is burned -/

variable {ι : Type*} [DecidableEq ι] {allowed : Config ι Store Call → ι → Prop} {start c : Config ι Store Call} {i : ι}

/-- Some token is of the family. -/
def Known (s : Store) (f : String) : Prop := ∃ row ∈ s.tokens.rows, row.family = f

/-- No token of the family is alive. -/
def Spent (s : Store) (f : String) : Prop := ∀ row ∈ s.tokens.rows, row.family = f → row.revokedAt ≠ none

theorem Quieter.knows (h : Quieter s s') (hknown : Known s f) : Known s' f := by
  obtain ⟨row, hrow, rfl⟩ := hknown
  exact h.known row hrow

theorem Quieter.spent (h : Quieter s s') (hspent : Spent s f) : Spent s' f :=
  fun row hrow hfamily hlive => hspent row (h.live row hrow hlive) hfamily hlive

/-- All tokens of the family are spent, and no refresh of it is past its check. -/
structure Dead (f : String) (c : Config ι Store Call) : Prop where
  known : Known c.store f
  spent : Spent c.store f
  idle : ∀ i, (c.call i).family = some f → (c.call i).isHolding = false

theorem knows_append {old rows : List RefreshToken} (hrows : rows = old ++ [row])
    (hknown : ∃ row ∈ old, row.family = f) : ∃ row ∈ rows, row.family = f := by
  obtain ⟨other, hother, hfamily⟩ := hknown
  exact ⟨other, hrows ▸ List.mem_append_left _ hother, hfamily⟩

/-- However the calls are interleaved, and whatever fails, a dead family stays dead. -/
theorem dead_run (hdead : Dead f start) (h : Run (act hash ttl) allowed start c) : Dead f c := by
  refine h.invariant hdead ?_
  intro c i answer s k hc _ hact
  have hidle : ∀ j, (c.call j).family = some f → (c.call j).isHolding = false := hc.idle
  have hcalls : (k.family = some f → k.isHolding = false) →
      ∀ j, (Function.update c.call i k j).family = some f → (Function.update c.call i k j).isHolding = false := by
    intro hk j
    rw [Function.update_apply]
    split_ifs
    · exact hk
    · exact hidle j
  by_cases hissuing : ∃ userId drawn, c.call i = .issuing userId drawn
  · obtain ⟨userId, drawn, hcall⟩ := hissuing
    have hdrawn : drawn ≠ some f := by
      rintro rfl
      have := hidle i
      rw [hcall] at this
      cases this rfl
    rw [hcall] at hact
    obtain ⟨hfamily, -, hstore⟩ := act_issuing hact
    have hk : k.family = some f → k.isHolding = false := by
      rw [hfamily]
      exact nofun
    rcases hstore with rfl | ⟨row, -, hrow, hfresh, hrows, -⟩
    · exact ⟨hc.known, hc.spent, hcalls hk⟩
    · refine ⟨knows_append hrows hc.known, fun other hother hof => ?_, hcalls hk⟩
      rw [hrows] at hother
      rcases List.mem_append.1 hother with hold | hnew
      · exact hc.spent other hold hof
      · rw [List.mem_singleton.1 hnew] at hof
        cases drawn with
        | none =>
          obtain ⟨old, hold, holdf⟩ := hc.known
          exact absurd (holdf.trans hof.symm) (hfresh rfl old hold)
        | some g => exact absurd (by rw [← hof, hrow]; rfl) hdrawn
  · push Not at hissuing
    have hquieter := act_quieter hact hissuing
    refine ⟨hquieter.knows hc.known, hquieter.spent hc.spent, hcalls fun hfamily => ?_⟩
    rcases act_family hact hfamily with ⟨rawToken, -, -, -, stored, hmem, hstored, rfl | ⟨rfl, hlive⟩⟩ | ⟨-, rfl, -⟩ |
      ⟨stored, hstored, ⟨hcall, -⟩ | ⟨hcall, -⟩⟩
    · rfl
    · exact absurd hlive (hc.spent stored hmem hstored)
    · rfl
    · have hbusy := hidle i
      rw [hcall] at hbusy
      cases hbusy (congrArg some hstored)
    · have hbusy := hidle i
      rw [hcall] at hbusy
      cases hbusy (congrArg some hstored)

/-- A token that was spent is presented again and again. -/
def replayed : Config (Fin 2) Store Call where
  store :=
    { tokens := ⟨[{ tokenHash := "s", userId := "u", family := "f", expiresAt := 9, revokedAt := some 1 }], by decide⟩
      isActive := fun _ => true }
  call := fun _ => .refresh "f.s"

theorem replayed_dead : ∃ c, Run (act id 0) (fun _ _ => True) replayed c ∧ c.call 1 = .burned "f" ∧ Dead "f" c := by
  obtain ⟨c, hrun, hburned⟩ := run_of_exec_any (act id 0) (fun _ _ => True) replayed
    ([0, 1, 1, 0].map fun i => (i, { now := 2 })) (fun c => c.call 1 = .burned "f") (by decide +kernel)
  have hdead : Dead "f" replayed := ⟨⟨_, List.mem_cons_self, rfl⟩, by unfold Spent; decide, nofun⟩
  exact ⟨c, hrun, of_decide_eq_true hburned, dead_run hdead hrun⟩

/-! ### Refreshes that do not overlap -/

def Call.begins : Call → Option String
  | .refresh rawToken => some (splitToken rawToken).1
  | _ => none

/-- No refresh begins while another one of its family is under way. -/
def exclusive (c : Config ι Store Call) (i : ι) : Prop :=
  ∀ f ∈ (c.call i).begins, ∀ j, (c.call j).family = some f → (c.call j).isBurned = true

instance [Fintype ι] (c : Config ι Store Call) (i : ι) : Decidable (exclusive c i) :=
  inferInstanceAs (Decidable (∀ f ∈ (c.call i).begins, ∀ j, (c.call j).family = some f → (c.call j).isBurned = true))

/-- At most one token of a family is alive. -/
def OneAlive (s : Store) : Prop := ∀ a ∈ s.tokens.rows, ∀ b ∈ s.tokens.rows, a.family = b.family →
  a.revokedAt = none → b.revokedAt = none → a = b

/-- What a call may rely on: the token it is to revoke is the only one alive, and the one it is to
issue will be. -/
def Fits (s : Store) : Call → Prop
  | .burning family => Known s family
  | .rotating stored => Known s stored.family ∧
      ∀ row ∈ s.tokens.rows, row.family = stored.family → row.revokedAt = none → row.tokenHash = stored.tokenHash
  | .loading stored => Known s stored.family ∧ Spent s stored.family
  | .issuing _ (some family) | .burned family => Known s family ∧ Spent s family
  | _ => True

/-- Of two calls about one family at least one has burned it, and neither is to issue a token. -/
def Apart (k l : Call) : Prop := ∀ f, k.family = some f → l.family = some f →
  (k.isBurned = true ∨ l.isBurned = true) ∧ k.isHolding = false ∧ l.isHolding = false

theorem Apart.symm {k l : Call} (h : Apart k l) : Apart l k := fun f hl hk =>
  ⟨(h f hk hl).1.symm, (h f hk hl).2.2, (h f hk hl).2.1⟩

theorem Quieter.oneAlive (h : Quieter s s') (hone : OneAlive s) : OneAlive s' :=
  fun a ha b hb hab hla hlb => hone a (h.live a ha hla) b (h.live b hb hlb) hab hla hlb

theorem Quieter.fits (h : Quieter s s') (hfits : Fits s call) : Fits s' call := by
  cases call with
  | burning => exact h.knows hfits
  | rotating => exact ⟨h.knows hfits.1, fun row hrow hfamily hlive => hfits.2 row (h.live row hrow hlive) hfamily hlive⟩
  | loading => exact ⟨h.knows hfits.1, h.spent hfits.2⟩
  | burned => exact ⟨h.knows hfits.1, h.spent hfits.2⟩
  | issuing userId drawn =>
    cases drawn with
    | none => trivial
    | some g => exact ⟨h.knows hfits.1, h.spent hfits.2⟩
  | _ => trivial

theorem Fits.known (h : Fits s call) (hfamily : call.family = some f) : Known s f := by
  cases call with
  | burning => cases hfamily; exact h
  | rotating => cases hfamily; exact h.1
  | loading => cases hfamily; exact h.1
  | burned => cases hfamily; exact h.1
  | issuing userId drawn =>
    cases hfamily
    exact h.1
  | _ => cases hfamily

/-- A new token leaves what calls about other families rely on. -/
theorem Fits.append (h : Fits s call) (hrows : s'.tokens.rows = s.tokens.rows ++ [row])
    (hfamily : ∀ f, call.family = some f → row.family ≠ f) : Fits s' call := by
  have hknown : ∀ {f}, Known s f → Known s' f := knows_append hrows
  have hold : ∀ {f}, row.family ≠ f → ∀ other ∈ s'.tokens.rows, other.family = f → other ∈ s.tokens.rows := by
    intro f hne other hother hof
    rw [hrows] at hother
    rcases List.mem_append.1 hother with hother | hother
    · exact hother
    · exact absurd (List.mem_singleton.1 hother ▸ hof) hne
  have hspent : ∀ {f}, row.family ≠ f → Spent s f → Spent s' f :=
    fun hne hspent other hother hof => hspent other (hold hne other hother hof) hof
  cases call with
  | burning => exact hknown h
  | rotating stored =>
    exact ⟨hknown h.1, fun other hother hof => h.2 other (hold (hfamily _ rfl) other hother hof) hof⟩
  | loading => exact ⟨hknown h.1, hspent (hfamily _ rfl) h.2⟩
  | burned => exact ⟨hknown h.1, hspent (hfamily _ rfl) h.2⟩
  | issuing userId drawn =>
    cases drawn with
    | none => trivial
    | some g => exact ⟨hknown h.1, hspent (hfamily _ rfl) h.2⟩
  | _ => trivial

theorem fits_of_family (h : call.family = none) : Fits s call := by
  cases call with
  | issuing userId drawn =>
    cases h
    trivial
  | burning | rotating | loading | burned => cases h
  | _ => trivial

theorem not_holding_of_burned (h : call.isBurned = true) : call.isHolding = false := by
  cases call with
  | burned => rfl
  | _ => cases h

theorem Fits.spent (h : Fits s call) (hburned : call.isBurned = true) (hfamily : call.family = some f) : Spent s f := by
  cases call with
  | burned => cases hfamily; exact h.2
  | _ => cases hburned

theorem Apart.elim {k l : Call} (h : Apart k l) (hholding : k.isHolding = true) (hk : k.family = some f) :
    l.family ≠ some f := by
  intro hl
  have hnot := (h f hk hl).2.1
  rw [hholding] at hnot
  cases hnot

theorem issuing_inv {userId : String} (hinv : Inv OneAlive Fits Apart c) (hcall : c.call i = .issuing userId drawn)
    (hact : act hash ttl c.store (.issuing userId drawn) answer = some (s', call')) :
    Inv OneAlive Fits Apart ⟨s', Function.update c.call i call'⟩ := by
  have hfits := hinv.call i
  rw [hcall] at hfits
  obtain ⟨hfamily, -, hstore⟩ := act_issuing hact
  have hapart : ∀ l, Apart call' l := by
    intro l f hf
    rw [hfamily] at hf
    cases hf
  rcases hstore with rfl | ⟨row, -, hrow, hfresh, hrows, -⟩
  · exact hinv.update (fun _ _ => Apart.symm) hinv.store (fits_of_family hfamily) fun j _ => ⟨hinv.call j, hapart _⟩
  · -- the family is new, or all its tokens are spent
    have hspent : ∀ old ∈ c.store.tokens.rows, old.family = row.family → old.revokedAt ≠ none := by
      intro old hold hof
      cases drawn with
      | none => exact absurd hof (hfresh rfl old hold)
      | some g => exact hfits.2 old hold (hof.trans hrow)
    refine hinv.update (fun _ _ => Apart.symm) ?_ (fits_of_family hfamily) fun j hj =>
      ⟨(hinv.call j).append hrows fun f hf => ?_, hapart _⟩
    · intro a ha b hb hab hla hlb
      rw [hrows] at ha hb
      rcases List.mem_append.1 ha with ha | ha <;> rcases List.mem_append.1 hb with hb | hb
      · exact hinv.store a ha b hb hab hla hlb
      · rw [List.mem_singleton.1 hb] at hab
        exact absurd hla (hspent a ha hab)
      · rw [List.mem_singleton.1 ha] at hab
        exact absurd hlb (hspent b hb hab.symm)
      · rw [List.mem_singleton.1 ha, List.mem_singleton.1 hb]
    · rintro rfl
      cases drawn with
      | none =>
        obtain ⟨old, hold, hof⟩ := (hinv.call j).known hf
        exact hfresh rfl old hold hof
      | some g =>
        have hpair := hinv.pair i j (Ne.symm hj)
        rw [hcall] at hpair
        exact hpair.elim rfl (congrArg some hrow.symm) hf

theorem exclusive_inv (hstart : Inv OneAlive Fits Apart start) (h : Run (act hash ttl) exclusive start c) :
    Inv OneAlive Fits Apart c := by
  refine h.invariant hstart ?_
  intro c i answer s k hinv hallowed hact
  by_cases hissuing : ∃ userId drawn, c.call i = .issuing userId drawn
  · obtain ⟨userId, drawn, hcall⟩ := hissuing
    rw [hcall] at hact
    exact issuing_inv hinv hcall hact
  · push Not at hissuing
    have hquieter := act_quieter hact hissuing
    have hfits := hinv.call i
    suffices hk : Fits s k ∧ ∀ j, j ≠ i → Apart k (c.call j) from
      hinv.update (fun _ _ => Apart.symm) (hquieter.oneAlive hinv.store) hk.1 fun j hj =>
        ⟨hquieter.fits (hinv.call j), hk.2 j hj⟩
    cases hfamily : k.family with
    | none =>
      refine ⟨fits_of_family hfamily, fun j _ f hf => ?_⟩
      rw [hfamily] at hf
      cases hf
    | some f =>
      rcases act_family hact hfamily with ⟨rawToken, hcall, rfl, rfl, stored, hmem, hstored, rfl | ⟨rfl, hlive⟩⟩ |
        ⟨hcall, rfl, rfl⟩ | ⟨stored, rfl, ⟨hcall, rfl, rfl⟩ | ⟨hcall, rfl, rfl⟩⟩
      · -- the token is spent already
        refine ⟨⟨stored, hmem, hstored⟩, fun j _ g hg hj => ?_⟩
        cases hg
        have hburned := hallowed _ (by rw [hcall]; rfl) j hj
        exact ⟨.inr hburned, rfl, not_holding_of_burned hburned⟩
      · refine ⟨⟨⟨stored, hmem, rfl⟩, fun row hrow hof hrowlive => ?_⟩, fun j _ g hg hj => ?_⟩
        · rw [hinv.store row hrow stored hmem hof hrowlive hlive]
        · cases hg
          rw [hstored] at hj
          have hburned := hallowed _ (by rw [hcall]; rfl) j hj
          exact absurd hlive ((hinv.call j).spent hburned hj stored hmem hstored)
      · rw [hcall] at hfits
        refine ⟨⟨hquieter.knows hfits, fun row hrow hof hlive => ?_⟩, fun j hj g hg hgj => ?_⟩
        · have hnot := not_of_live hrow hlive
          simp [hof, hlive] at hnot
        · have hpair := hinv.pair i j (Ne.symm hj)
          rw [hcall] at hpair
          exact ⟨.inl rfl, rfl, (hpair g hg hgj).2.2⟩
      · rw [hcall] at hfits
        refine ⟨⟨hquieter.knows hfits.1, fun row hrow hof hlive => ?_⟩, fun j hj g hg hgj => ?_⟩
        · have hnot := not_of_live hrow hlive
          have hhash := hfits.2 row (hquieter.live row hrow hlive) hof hlive
          simp [hhash] at hnot
        · have hpair := hinv.pair i j (Ne.symm hj)
          rw [hcall] at hpair
          exact absurd hgj (hpair.elim rfl hg)
      · rw [hcall] at hfits
        refine ⟨hfits, fun j hj g hg hgj => ?_⟩
        have hpair := hinv.pair i j (Ne.symm hj)
        rw [hcall] at hpair
        exact absurd hgj (hpair.elim rfl hg)

/-- What a request to the service starts as. -/
def isEntry : Call → Bool
  | .login _ | .refresh _ | .logout _ | .changePassword _ | .setActive _ _ => true
  | _ => false

/-- Where no two refreshes of a family overlap, it has one token alive at most, and none once a spent
one has been presented. -/
theorem exclusive_run (hentry : ∀ i, isEntry (start.call i) = true) (hone : OneAlive start.store)
    (h : Run (act hash ttl) exclusive start c) :
    OneAlive c.store ∧ ∀ i f, c.call i = .burned f → Spent c.store f := by
  have hfamily : ∀ i, (start.call i).family = none := by
    intro i
    have hi := hentry i
    cases hcall : start.call i <;> rw [hcall] at hi <;> first | rfl | cases hi
  have hstart : Inv OneAlive Fits Apart start :=
    ⟨hone, fun i => fits_of_family (hfamily i), fun i j _ f hi => by rw [hfamily i] at hi; cases hi⟩
  have hinv := exclusive_inv hstart h
  refine ⟨hinv.store, fun i f hcall => (hinv.call i).spent ?_ ?_⟩ <;> rw [hcall] <;> rfl

theorem replayed_exclusive : ∃ c, Run (act id 0) exclusive replayed c ∧ c.call 0 = .burned "f" ∧
    OneAlive c.store ∧ ∀ i f, c.call i = .burned f → Spent c.store f := by
  obtain ⟨c, hrun, hburned⟩ := run_of_exec_any (act id 0) exclusive replayed
    ([0, 0, 1, 1].map fun i => (i, { now := 2 })) (fun c => c.call 0 = .burned "f") (by decide +kernel)
  exact ⟨c, hrun, of_decide_eq_true hburned, exclusive_run (fun _ => rfl) (by unfold OneAlive; decide) hrun⟩

/-! ### Accounts that are disabled -/

theorem act_issues (h : act hash ttl s call answer = some (s', .issuing userId drawn)) : s.isActive userId = true := by
  have hnext : ∀ {next}, answered s answer next = (s', .issuing userId drawn) → next = (s', .issuing userId drawn) :=
    fun hanswered => answered_eq hanswered nofun
  cases call with
  | login =>
    have hread := hnext (Option.some.inj h)
    split_ifs at hread with hverified <;> cases hread
    exact ((Bool.and_eq_true _ _).mp hverified).2
  | loading =>
    have hloaded := hnext (Option.some.inj h)
    split_ifs at hloaded with hactive <;> cases hloaded
    exact hactive
  | refresh rawToken =>
    rw [act] at h
    split_ifs at h
    · cases h
    · have hadmitted := (Prod.mk.inj (hnext (Option.some.inj h))).2
      unfold admission at hadmitted
      split at hadmitted
      · cases hadmitted
      · split_ifs at hadmitted
  | issuing => cases (act_issuing h).2.1
  | logout =>
    rw [act] at h
    split_ifs at h
    · cases h
    · cases hnext (Option.some.inj h)
  | changePassword | setActive =>
    have hread := hnext (Option.some.inj h)
    split_ifs at hread <;> cases hread
  | burning | rotating | offboarding | revokingAll => cases hnext (Option.some.inj h)
  | burned | returned | done | threw => cases h

/-- The account is disabled, its tokens are spent, and no call that found it active is to issue one. -/
structure Barred (userId : String) (c : Config ι Store Call) : Prop where
  disabled : c.store.isActive userId = false
  spent : ∀ row ∈ c.store.tokens.rows, row.userId = userId → row.revokedAt ≠ none
  idle : ∀ i drawn, c.call i ≠ .issuing userId drawn

theorem act_isActive (h : act hash ttl s call answer = some (s', call')) (hcall : call ≠ .setActive userId true)
    (hdisabled : s.isActive userId = false) : s'.isActive userId = false := by
  have hsame : ∀ {store next}, answered s answer (store, next) = (s', call') → store.isActive userId = false →
      s'.isActive userId = false := by
    intro store next hanswered hstore
    rcases answered_cases s answer (store, next) with heq | ⟨message, heq⟩ <;>
      rw [heq] at hanswered <;> cases hanswered
    · exact hstore
    · exact hdisabled
  cases call <;> simp only [act, Option.some.injEq, reduceCtorEq] at h
  case issuing other drawn =>
    rcases (act_issuing h).2.2 with rfl | ⟨row, -, -, -, -, heq⟩
    · exact hdisabled
    · rw [heq]
      exact hdisabled
  case setActive other isActive =>
    refine hsame h ?_
    dsimp only
    rw [Function.update_apply]
    split_ifs with hother
    · rw [← hother] at hcall
      simpa using hcall
    · exact hdisabled
  case refresh =>
    split_ifs at h
    · cases h
      exact hdisabled
    · exact hsame (Option.some.inj h) hdisabled
  case logout =>
    split_ifs at h
    · cases h
      exact hdisabled
    · exact hsame (Option.some.inj h) hdisabled
  all_goals exact hsame h hdisabled

/-- However the calls are interleaved, no token of a disabled account comes alive before it is enabled again. -/
theorem barred_run (hbarred : Barred userId start)
    (h : Run (act hash ttl) (fun c i => c.call i ≠ .setActive userId true) start c) : Barred userId c := by
  refine h.invariant hbarred ?_
  intro c i answer s k hc hallowed hact
  have hdisabled := act_isActive hact hallowed hc.disabled
  have hidle : ∀ j drawn, Function.update c.call i k j ≠ .issuing userId drawn := by
    intro j drawn
    rw [Function.update_apply]
    split_ifs
    · rintro rfl
      have hactive := act_issues hact
      rw [hc.disabled] at hactive
      cases hactive
    · exact hc.idle j drawn
  by_cases hissuing : ∃ other drawn, c.call i = .issuing other drawn
  · obtain ⟨other, drawn, hcall⟩ := hissuing
    rw [hcall] at hact
    rcases (act_issuing hact).2.2 with rfl | ⟨row, hrow, -, -, hrows, -⟩
    · exact ⟨hdisabled, hc.spent, hidle⟩
    · refine ⟨hdisabled, fun old hold hof => ?_, hidle⟩
      rw [hrows] at hold
      rcases List.mem_append.1 hold with hold | hnew
      · exact hc.spent old hold hof
      · rw [List.mem_singleton.1 hnew, hrow] at hof
        exact absurd (hof ▸ hcall) (hc.idle i drawn)
  · push Not at hissuing
    have hquieter := act_quieter hact hissuing
    exact ⟨hdisabled, fun row hrow hof hlive => hc.spent row (hquieter.live row hrow hlive) hof hlive, hidle⟩

/-- The account is disabled while a refresh of it is under way. -/
def overtaken : Config (Fin 2) Store Call where
  store :=
    { tokens := ⟨[{ tokenHash := "s", userId := "u", family := "f", expiresAt := 9, revokedAt := some 1 }], by decide⟩
      isActive := fun _ => false }
  call := fun i => if i = 0 then .loading { tokenHash := "s", userId := "u", family := "f", expiresAt := 9, revokedAt := none }
    else .login "u"

theorem overtaken_barred : ∃ c, Run (act id 0) (fun c i => c.call i ≠ .setActive "u" true) overtaken c ∧
    c.call 0 = .threw "Account is disabled" ∧ Barred "u" c := by
  obtain ⟨c, hrun, hthrew⟩ := run_of_exec_any (act id 0) (fun c i => c.call i ≠ .setActive "u" true) overtaken
    ([0, 1, 0].map fun i => (i, {})) (fun c => c.call 0 = .threw "Account is disabled") (by decide +kernel)
  have hidle : ∀ i drawn, overtaken.call i ≠ .issuing "u" drawn := by
    intro i drawn
    unfold overtaken
    dsimp only
    split_ifs <;> exact nofun
  exact ⟨c, hrun, of_decide_eq_true hthrew, barred_run ⟨rfl, by decide, hidle⟩ hrun⟩

end UltraTorrent.Auth.RefreshTokens
