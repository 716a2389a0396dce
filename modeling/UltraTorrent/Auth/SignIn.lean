import Mathlib.Data.List.Nodup
import UltraTorrent.Library.EcmaScript
import UltraTorrent.Library.WhiteSpace

/-! Signing in with a password and a second factor, for one account and one request after another. -/
namespace UltraTorrent.Auth.SignIn

open Library Library.EcmaScript Library.WhiteSpace

structure User where
  passwordHash : String
  isActive : Bool
  totpEnabled : Bool
  totpSecret : Option String
  recoveryCodes : List String
  failedLoginAttempts : ℕ
  lockedUntil : Option Instant

/-- What the libraries do: `none` where a secret cannot be deciphered, which throws. -/
structure Crypto where
  verifyPassword : String → String → Bool
  decrypt : String → Option String
  verifyTotp : Instant → String → String → Bool
  sha256 : String → String
  toLowerCase : String → String

/-- Consecutive failed attempts before an account is temporarily locked. -/
def maxFailedAttempts : ℕ := 5

/-- How long an account stays locked after crossing the threshold. -/
def lockoutMs : Instant := 15 * 60000

structure Attempt where
  password : String
  totp : Option String
  /-- When the account is read, and when a failure is written down. -/
  readAt : Instant
  writtenAt : Instant
  /-- Whether the codes, and what the attempt comes to, can be written. -/
  codesWritten : Bool := true
  written : Bool := true

inductive Result where
  | locked
  | wrongPassword
  | inactive
  | codeRequired
  | wrongCode
  | threw
  | signedIn (recoveryCode : Option String)
  deriving DecidableEq

/-- An attempt that counts toward the lockout. -/
def Result.isFailed : Result → Bool
  | .wrongPassword | .wrongCode => true
  | _ => false

def Result.isSignedIn : Result → Bool
  | .signedIn _ => true
  | _ => false

def Result.message : Result → String
  | .locked => "Account temporarily locked due to failed attempts. Try again later."
  | .wrongPassword | .inactive => "Invalid credentials"
  | .codeRequired => "Two-factor authentication code required"
  | .wrongCode => "Invalid two-factor code"
  | .threw | .signedIn _ => ""

variable (crypto : Crypto)

def hashCode (code : String) : String :=
  crypto.sha256 (.ofList ((crypto.toLowerCase code).toList.filter fun c => ('a' ≤ c && c ≤ 'z') || ('0' ≤ c && c ≤ '9')))

/-- A failure that cannot be written down is not minded. -/
def registerFailedLogin (user : User) (a : Attempt) : User :=
  if a.written then
    if maxFailedAttempts ≤ user.failedLoginAttempts + 1 then
      { user with failedLoginAttempts := 0, lockedUntil := some (a.writtenAt + lockoutMs) }
    else { user with failedLoginAttempts := user.failedLoginAttempts + 1 }
  else user

inductive Challenge where
  | passed (recoveryCode : Option String)
  | failed
  | threw

/-- The secret on file; an empty one is none. -/
def User.secret (user : User) : Option String := user.totpSecret.filter (· ≠ "")

/-- A TOTP token, or a one-time recovery code, which is consumed on use. -/
def verifyForLogin (user : User) (a : Attempt) (token : String) : User × Challenge :=
  match user.totpEnabled, user.secret with
  | true, some totpSecret =>
    match crypto.decrypt totpSecret with
    | none => (user, .threw)
    | some secret =>
      if crypto.verifyTotp a.readAt (trim token) secret then (user, .passed none)
      else if ¬ user.recoveryCodes.contains (hashCode crypto (trim token)) then (user, .failed)
      else if ¬ a.codesWritten then (user, .threw)
      else
        ({ user with recoveryCodes := user.recoveryCodes.filter (· ≠ hashCode crypto (trim token)) },
          .passed (some (hashCode crypto (trim token))))
  | _, _ => (user, .passed none)

/-- Full success clears any accumulated failures and the lock. -/
def succeed (user : User) (a : Attempt) (recoveryCode : Option String) : User × Result :=
  if a.written then ({ user with failedLoginAttempts := 0, lockedUntil := none }, .signedIn recoveryCode)
  else (user, .threw)

def login (user : User) (a : Attempt) : User × Result :=
  if user.lockedUntil.any (a.readAt < ·) then (user, .locked)
  else if ¬ user.isActive then (user, .inactive)
  else if ¬ crypto.verifyPassword user.passwordHash a.password then (registerFailedLogin user a, .wrongPassword)
  else if ¬ user.totpEnabled then succeed user a none
  else
    match a.totp with
    | none | some "" => (user, .codeRequired)
    | some totp =>
      match verifyForLogin crypto user a totp with
      | (user, .threw) => (user, .threw)
      | (user, .failed) => (registerFailedLogin user a, .wrongCode)
      | (user, .passed recoveryCode) => succeed user a recoveryCode

/-! ### The second factor -/

inductive Event where
  | login (a : Attempt)
  | setup (encrypted : String)
  | enable (now : Instant) (code : String) (recoveryCodes : List String)
  | disable (password : String)
  | regenerateRecoveryCodes (now : Instant) (code : String) (recoveryCodes : List String)
  | setActive (isActive : Bool)

/-- Whether a code is right for the secret on file. -/
def confirms (user : User) (now : Instant) (code : String) : Bool :=
  (user.secret.bind crypto.decrypt).any fun secret => crypto.verifyTotp now (trim code) secret

/-- A request that is refused changes nothing. -/
def step (user : User) : Event → User × Option (Attempt × Result)
  | .login a => ((login crypto user a).1, some (a, (login crypto user a).2))
  | .setup encrypted => (if user.totpEnabled then user else { user with totpSecret := some encrypted }, none)
  | .enable now code recoveryCodes =>
    (if ¬ user.totpEnabled ∧ confirms crypto user now code then
      { user with totpEnabled := true, recoveryCodes := recoveryCodes.map (hashCode crypto) } else user, none)
  | .disable password =>
    (if crypto.verifyPassword user.passwordHash password then
      { user with totpEnabled := false, totpSecret := none, recoveryCodes := [] } else user, none)
  | .regenerateRecoveryCodes now code recoveryCodes =>
    (if user.totpEnabled ∧ confirms crypto user now code then
      { user with recoveryCodes := recoveryCodes.map (hashCode crypto) } else user, none)
  | .setActive isActive => ({ user with isActive := isActive }, none)

/-- The attempts to sign in, with what each came to. -/
def results : User → List Event → List (Attempt × Result)
  | _, [] => []
  | user, event :: events => (step crypto user event).2.toList ++ results (step crypto user event).1 events

/-! ### The lockout -/

variable {crypto} {user user' : User} {a : Attempt} {event : Event} {events : List Event} {t : Instant} {token : String}

def User.guard (user : User) : ℕ × Option Instant := (user.failedLoginAttempts, user.lockedUntil)

theorem verifyForLogin_guard {challenge : Challenge} (h : verifyForLogin crypto user a token = (user', challenge)) :
    user'.guard = user.guard := by
  unfold verifyForLogin at h
  split at h
  · split at h
    · cases h
      rfl
    · split_ifs at h <;> cases h <;> rfl
  · cases h
    rfl

theorem verifyForLogin_failed (h : verifyForLogin crypto user a token = (user', .failed)) : user' = user := by
  unfold verifyForLogin at h
  split at h
  · split at h
    · cases h
    · split_ifs at h <;> cases h
      rfl
  · cases h

/-- An attempt counts as failed or succeeds only where the account is not locked. -/
def Weighs (user : User) (a : Attempt) (next : User × Result) : Prop :=
  (next.2.isFailed = false ∧ next.2.isSignedIn = false ∧ next.1.guard = user.guard) ∨
    user.lockedUntil.any (a.readAt < ·) = false ∧
      (next.2.isFailed = true ∧ next.2.isSignedIn = false ∧ next.1 = registerFailedLogin user a ∨
        next.2.isFailed = false ∧ next.2.isSignedIn = true ∧ next.1.guard = (0, none))

theorem login_guard (crypto : Crypto) (user : User) (a : Attempt) : Weighs user a (login crypto user a) := by
  have hsucceed : ∀ u recoveryCode, u.guard = user.guard → ¬ user.lockedUntil.any (a.readAt < ·) = true →
      Weighs user a (succeed u a recoveryCode) := by
    intro u recoveryCode hu hlocked
    unfold succeed
    split_ifs
    · exact .inr ⟨Bool.eq_false_iff.2 hlocked, .inr ⟨rfl, rfl, rfl⟩⟩
    · exact .inl ⟨rfl, rfl, hu⟩
  unfold login
  split_ifs with hlocked hactive hpassword htotp
  · exact .inl ⟨rfl, rfl, rfl⟩
  · split
    · exact .inl ⟨rfl, rfl, rfl⟩
    · exact .inl ⟨rfl, rfl, rfl⟩
    · split
      next u hverify => exact .inl ⟨rfl, rfl, verifyForLogin_guard hverify⟩
      next u hverify =>
        rw [verifyForLogin_failed hverify]
        exact .inr ⟨Bool.eq_false_iff.2 hlocked, .inl ⟨rfl, rfl, rfl⟩⟩
      next u recoveryCode hverify => exact hsucceed u recoveryCode (verifyForLogin_guard hverify) hlocked
  · exact hsucceed user none rfl hlocked
  · exact .inr ⟨Bool.eq_false_iff.2 hlocked, .inl ⟨rfl, rfl, rfl⟩⟩
  · exact .inl ⟨rfl, rfl, rfl⟩

/-- What is not an attempt to sign in leaves the count and the lock alone. -/
theorem step_guard (crypto : Crypto) (user : User) (h : ∀ a, event ≠ .login a) :
    (step crypto user event).2 = none ∧ (step crypto user event).1.guard = user.guard := by
  cases event with
  | login a => exact absurd rfl (h a)
  | setActive isActive => exact ⟨rfl, rfl⟩
  | _ =>
    refine ⟨rfl, ?_⟩
    dsimp only [step]
    split_ifs <;> rfl

/-! ### A window of attempts -/

def within (t : Instant) (a : Attempt) : Bool := t ≤ a.readAt && a.readAt < t + lockoutMs

def failedIn (t : Instant) (results : List (Attempt × Result)) : ℕ :=
  results.countP fun r => within t r.1 && r.2.isFailed

def signedIn (t : Instant) (results : List (Attempt × Result)) : ℕ :=
  results.countP fun r => within t r.1 && r.2.isSignedIn

def attempts (events : List Event) : List Attempt := events.filterMap fun
  | .login a => some a
  | _ => none

/-- One request after another, each failure written down no sooner than the account was read. -/
structure Served (events : List Event) : Prop where
  chronological : (attempts events).Pairwise fun a b => a.readAt ≤ b.readAt
  written : ∀ a ∈ attempts events, a.written = true ∧ a.readAt ≤ a.writtenAt

/-- The failures that are still counted before the account is locked for the rest of the window. -/
def remaining (t : Instant) (user : User) : ℕ :=
  if user.lockedUntil.any (t + lockoutMs ≤ ·) then 0 else maxFailedAttempts - user.failedLoginAttempts

theorem remaining_congr (h : user'.guard = user.guard) : remaining t user' = remaining t user := by
  have hcount : user'.failedLoginAttempts = user.failedLoginAttempts := congrArg Prod.fst h
  have hlock : user'.lockedUntil = user.lockedUntil := congrArg Prod.snd h
  rw [remaining, remaining, hcount, hlock]

/-- An account that is not locked within the window is not locked beyond its end. -/
theorem remaining_of_unlocked (hwithin : within t a = true) (hunlocked : user.lockedUntil.any (a.readAt < ·) = false) :
    remaining t user = maxFailedAttempts - user.failedLoginAttempts := by
  simp only [within, Bool.and_eq_true, decide_eq_true_eq] at hwithin
  unfold remaining
  rw [if_neg]
  cases hlock : user.lockedUntil with
  | none => simp
  | some l =>
    rw [hlock] at hunlocked
    simp only [Option.any_some, decide_eq_true_eq, decide_eq_false_iff_not] at hunlocked ⊢
    exact fun hle => hunlocked (lt_of_lt_of_le hwithin.2 hle)

theorem login_count (crypto : Crypto) (a : Attempt) (hcount : user.failedLoginAttempts < maxFailedAttempts) :
    (login crypto user a).1.failedLoginAttempts < maxFailedAttempts := by
  rcases login_guard crypto user a with ⟨-, -, hguard⟩ | ⟨-, ⟨-, -, hfailed⟩ | ⟨-, -, hguard⟩⟩
  · have hsame : (login crypto user a).1.failedLoginAttempts = user.failedLoginAttempts := congrArg Prod.fst hguard
    rwa [hsame]
  · rw [hfailed]
    unfold registerFailedLogin
    split_ifs with hwritten hlock
    · exact Nat.zero_lt_succ _
    · exact Nat.lt_of_not_le hlock
    · exact hcount
  · have hzero : (login crypto user a).1.failedLoginAttempts = 0 := congrArg Prod.fst hguard
    rw [hzero]
    exact Nat.zero_lt_succ _

theorem login_within (crypto : Crypto) (hwritten : a.written = true ∧ a.readAt ≤ a.writtenAt)
    (hcount : user.failedLoginAttempts < maxFailedAttempts) (hwithin : within t a = true) :
    (if (login crypto user a).2.isFailed then 1 else 0) + remaining t (login crypto user a).1 ≤
      4 * (if (login crypto user a).2.isSignedIn then 1 else 0) + remaining t user := by
  rcases login_guard crypto user a with ⟨hfailed, hsigned, hguard⟩ |
    ⟨hunlocked, ⟨hfailed, hsigned, hregister⟩ | ⟨hfailed, hsigned, hguard⟩⟩
  · rw [hfailed, hsigned, remaining_congr hguard]
    simp
  · have hremaining := remaining_of_unlocked hwithin hunlocked
    have hafter : remaining t (registerFailedLogin user a) + 1 ≤ remaining t user := by
      rw [hremaining]
      unfold registerFailedLogin
      rw [if_pos hwritten.1]
      split_ifs with hlock
      · simp only [within, Bool.and_eq_true, decide_eq_true_eq] at hwithin
        have hlocked : t + lockoutMs ≤ a.writtenAt + lockoutMs :=
          Int.add_le_add_right (hwithin.1.trans hwritten.2) lockoutMs
        rw [remaining, if_pos (by simpa using hlocked)]
        omega
      · have hsame : remaining t { user with failedLoginAttempts := user.failedLoginAttempts + 1 } =
            maxFailedAttempts - (user.failedLoginAttempts + 1) := remaining_of_unlocked hwithin hunlocked
        rw [hsame]
        omega
    rw [hfailed, hsigned, hregister]
    simp only [if_true, Bool.false_eq_true, if_false]
    omega
  · have hremaining := remaining_of_unlocked hwithin hunlocked
    have hafter : remaining t (login crypto user a).1 ≤ maxFailedAttempts := by
      unfold remaining
      split_ifs <;> omega
    rw [hfailed, hsigned, hremaining]
    simp only [if_true, Bool.false_eq_true, if_false, maxFailedAttempts] at *
    omega

theorem results_cons : results crypto user (event :: events) =
    (step crypto user event).2.toList ++ results crypto (step crypto user event).1 events := rfl

theorem attempt_mem {r : Attempt × Result} (h : r ∈ results crypto user events) : r.1 ∈ attempts events := by
  induction events generalizing user with
  | nil => cases h
  | cons event events ih =>
    rw [results_cons, List.mem_append] at h
    rcases h with h | h
    · cases event with
      | login a =>
        rw [List.mem_singleton.1 h]
        exact List.mem_cons_self
      | _ => cases h
    · exact (List.Sublist.filterMap _ (List.sublist_cons_self event events)).subset (ih h)

theorem failedIn_eq_zero (h : ∀ a ∈ attempts events, within t a = false) : failedIn t (results crypto user events) = 0 := by
  unfold failedIn
  rw [List.countP_eq_zero]
  intro r hr
  simp [h r.1 (attempt_mem hr)]

theorem Served.tail (h : Served (event :: events)) : Served events := by
  have hsub : (attempts events).Sublist (attempts (event :: events)) :=
    List.Sublist.filterMap _ (List.sublist_cons_self event events)
  exact ⟨h.chronological.sublist hsub, fun a ha => h.written a (hsub.subset ha)⟩

theorem failedIn_login : failedIn t (results crypto user (.login a :: events)) =
    failedIn t (results crypto (login crypto user a).1 events) +
      if within t a && (login crypto user a).2.isFailed then 1 else 0 := List.countP_cons

theorem signedIn_login : signedIn t (results crypto user (.login a :: events)) =
    signedIn t (results crypto (login crypto user a).1 events) +
      if within t a && (login crypto user a).2.isSignedIn then 1 else 0 := List.countP_cons

theorem attempts_of_not_login (h : ∀ a, event ≠ .login a) : attempts (event :: events) = attempts events := by
  cases event with
  | login a => exact absurd rfl (h a)
  | _ => rfl

theorem window_le (crypto : Crypto) (h : Served events) (hstarted : ∀ a ∈ attempts events, t ≤ a.readAt)
    (hcount : user.failedLoginAttempts < maxFailedAttempts) :
    failedIn t (results crypto user events) ≤ 4 * signedIn t (results crypto user events) + remaining t user := by
  induction events generalizing user with
  | nil => exact Nat.zero_le _
  | cons event events ih =>
    by_cases hlogin : ∃ a, event = .login a
    · obtain ⟨a, rfl⟩ := hlogin
      have hafter : ∀ b ∈ attempts events, a.readAt ≤ b.readAt := (List.pairwise_cons.1 h.chronological).1
      rw [failedIn_login, signedIn_login]
      cases hwithin : within t a with
      | true =>
        have hhead := login_within crypto (h.written a List.mem_cons_self) hcount hwithin
        have htail := ih h.tail (fun b hb => hstarted b (List.mem_cons_of_mem a hb)) (login_count crypto a hcount)
        simp only [Bool.true_and]
        omega
      | false =>
        -- the window is over, for all that come after as well
        have hover : ∀ b ∈ attempts events, within t b = false := by
          intro b hb
          have hstart := hstarted a List.mem_cons_self
          simp only [within, Bool.and_eq_false_iff, decide_eq_false_iff_not] at hwithin ⊢
          rcases hwithin with hearly | hlate
          · exact absurd hstart hearly
          · exact .inr fun hlt => hlate (lt_of_le_of_lt (hafter b hb) hlt)
        rw [failedIn_eq_zero hover]
        simp
    · push Not at hlogin
      obtain ⟨hnone, hguard⟩ := step_guard crypto user hlogin
      rw [attempts_of_not_login hlogin] at hstarted
      have hsame : (step crypto user event).1.failedLoginAttempts = user.failedLoginAttempts := congrArg Prod.fst hguard
      have hbelow : (step crypto user event).1.failedLoginAttempts < maxFailedAttempts := by rwa [hsame]
      have htail := ih h.tail hstarted hbelow
      rw [remaining_congr hguard] at htail
      rw [results_cons, hnone]
      exact htail

/-- Whatever else is asked for in between, the passwords and codes that are tried within any fifteen minutes
and found wrong are at most five, and four more for each time the owner signs in. -/
theorem failedIn_le (h : Served events) (hcount : user.failedLoginAttempts < maxFailedAttempts) :
    failedIn t (results crypto user events) ≤ 4 * signedIn t (results crypto user events) + maxFailedAttempts := by
  induction events generalizing user with
  | nil => exact Nat.zero_le _
  | cons event events ih =>
    by_cases hlogin : ∃ a, event = .login a
    · obtain ⟨a, rfl⟩ := hlogin
      by_cases hstarted : t ≤ a.readAt
      · have hall : ∀ b ∈ attempts (.login a :: events), t ≤ b.readAt := by
          intro b hb
          rcases List.mem_cons.1 hb with rfl | hb
          · exact hstarted
          · exact hstarted.trans ((List.pairwise_cons.1 h.chronological).1 b hb)
        have hle : remaining t user ≤ maxFailedAttempts := by
          unfold remaining
          split_ifs <;> omega
        have hwindow := window_le crypto h hall hcount
        omega
      · have htail := ih h.tail (login_count crypto a hcount)
        have hwithin : within t a = false := by
          rw [within, decide_eq_false hstarted, Bool.false_and]
        rw [failedIn_login, signedIn_login, hwithin]
        simpa using htail
    · push Not at hlogin
      obtain ⟨hnone, hguard⟩ := step_guard crypto user hlogin
      have hsame : (step crypto user event).1.failedLoginAttempts = user.failedLoginAttempts := congrArg Prod.fst hguard
      rw [results_cons, hnone]
      exact ih h.tail (by rwa [hsame])

/-- An account without a second factor, its password guessed at once a minute. -/
def guessed : User where
  passwordHash := "right"
  isActive := true
  totpEnabled := false
  totpSecret := none
  recoveryCodes := []
  failedLoginAttempts := 0
  lockedUntil := none

def plain : Crypto where
  verifyPassword hash password := hash = password
  decrypt := some
  verifyTotp _ token secret := token = secret
  sha256 := id
  toLowerCase := id

def guesses : List Event := (List.range 9).map fun i =>
  .login { password := "wrong", totp := none, readAt := 60000 * i, writtenAt := 60000 * i + 1 }

theorem guesses_served : Served guesses := ⟨by decide, by decide⟩

theorem guesses_failedIn : failedIn 0 (results plain guessed guesses) = 5 ∧
    failedIn 0 (results plain guessed guesses) ≤ 4 * signedIn 0 (results plain guessed guesses) + maxFailedAttempts :=
  ⟨by decide +kernel, failedIn_le guesses_served (by decide)⟩

/-! ### Recovery codes -/

/-- The recovery codes that have let someone in, hashed. -/
def recovered (results : List (Attempt × Result)) : List String := results.filterMap fun
  | (_, .signedIn recoveryCode) => recoveryCode
  | _ => none

/-- Codes are not issued. -/
def Event.keepsCodes : Event → Bool
  | .enable .. | .regenerateRecoveryCodes .. => false
  | _ => true

theorem verifyForLogin_codes {challenge : Challenge} (h : verifyForLogin crypto user a token = (user', challenge)) :
    (user' = user ∧ ∀ code, challenge ≠ .passed (some code)) ∨ ∃ code, challenge = .passed (some code) ∧
      code ∈ user.recoveryCodes ∧ user'.recoveryCodes = user.recoveryCodes.filter (· ≠ code) := by
  unfold verifyForLogin at h
  split at h
  · split at h
    · cases h
      exact .inl ⟨rfl, nofun⟩
    · split_ifs at h with htotp hcode hwritten <;> cases h
      · exact .inl ⟨rfl, nofun⟩
      · exact .inr ⟨_, rfl, List.contains_iff_mem.1 hcode, rfl⟩
      · exact .inl ⟨rfl, nofun⟩
      · exact .inl ⟨rfl, nofun⟩
  · cases h
    exact .inl ⟨rfl, nofun⟩

theorem registerFailedLogin_codes : (registerFailedLogin user a).recoveryCodes = user.recoveryCodes := by
  unfold registerFailedLogin
  split_ifs <;> rfl

theorem succeed_codes (user : User) (a : Attempt) (recoveryCode : Option String) : (succeed user a recoveryCode).1.recoveryCodes = user.recoveryCodes ∧
    ∀ code, (succeed user a recoveryCode).2 = .signedIn (some code) → recoveryCode = some code := by
  unfold succeed
  split_ifs
  · exact ⟨rfl, fun code h => Result.signedIn.inj h⟩
  · exact ⟨rfl, nofun⟩

/-- No code is added, and one that lets someone in was on file and is no longer. -/
def Spends (user : User) (next : User × Result) : Prop :=
  next.1.recoveryCodes ⊆ user.recoveryCodes ∧
    ∀ code, next.2 = .signedIn (some code) → code ∈ user.recoveryCodes ∧ code ∉ next.1.recoveryCodes

theorem login_spends (crypto : Crypto) (user : User) (a : Attempt) : Spends user (login crypto user a) := by
  have hkeeps : ∀ (u : User) (r : Result), u.recoveryCodes = user.recoveryCodes → (∀ code, r ≠ .signedIn (some code)) →
      Spends user (u, r) :=
    fun u r hcodes hnot => ⟨fun code hcode => hcodes ▸ hcode, fun code hcode => absurd hcode (hnot code)⟩
  unfold login
  split_ifs
  · exact hkeeps user .locked rfl nofun
  · split
    · exact hkeeps user .codeRequired rfl nofun
    · exact hkeeps user .codeRequired rfl nofun
    · split
      next u hverify =>
        rcases verifyForLogin_codes hverify with ⟨hsame, -⟩ | ⟨code, hthrew, -⟩
        · exact hkeeps u .threw (congrArg User.recoveryCodes hsame) nofun
        · cases hthrew
      next u hverify =>
        rw [verifyForLogin_failed hverify]
        exact hkeeps _ .wrongCode registerFailedLogin_codes nofun
      next u recoveryCode hverify =>
        obtain ⟨hcodes, hsigned⟩ := succeed_codes u a recoveryCode
        rcases verifyForLogin_codes hverify with ⟨hsame, hnot⟩ | ⟨code, hpassed, hmem, hfilter⟩
        · exact hkeeps _ _ (hcodes.trans (congrArg User.recoveryCodes hsame))
            fun code hcode => hnot code (congrArg Challenge.passed (hsigned code hcode))
        · unfold Spends
          rw [hcodes, hfilter]
          refine ⟨List.filter_subset_self _, fun other hother => ?_⟩
          cases hpassed
          cases hsigned other hother
          exact ⟨hmem, by simp⟩
  · obtain ⟨hcodes, hsigned⟩ := succeed_codes user a none
    exact hkeeps _ _ hcodes fun code hcode => nomatch hsigned code hcode
  · exact hkeeps _ .wrongPassword registerFailedLogin_codes nofun
  · exact hkeeps user .inactive rfl nofun

theorem step_codes (h : event.keepsCodes = true) : (step crypto user event).1.recoveryCodes ⊆ user.recoveryCodes := by
  cases event with
  | login a => exact (login_spends crypto user a).1
  | setActive isActive => exact fun _ h => h
  | setup encrypted =>
    dsimp only [step]
    split_ifs <;> exact fun _ h => h
  | disable password =>
    dsimp only [step]
    split_ifs
    · exact fun _ h => absurd h List.not_mem_nil
    · exact fun _ h => h
  | enable | regenerateRecoveryCodes => cases h

theorem step_recovered (crypto : Crypto) (user : User) (event : Event) : recovered (step crypto user event).2.toList = [] ∨
    ∃ code, recovered (step crypto user event).2.toList = [code] ∧
      code ∈ user.recoveryCodes ∧ code ∉ (step crypto user event).1.recoveryCodes := by
  cases event with
  | login a =>
    have hcodes := (login_spends crypto user a).2
    cases hresult : (login crypto user a).2 with
    | signedIn recoveryCode =>
      have hstep : (step crypto user (.login a)).2 = some (a, .signedIn recoveryCode) := by rw [step, hresult]
      rw [hstep]
      cases recoveryCode with
      | none => exact .inl rfl
      | some code => exact .inr ⟨code, rfl, hcodes code hresult⟩
    | _ =>
      refine .inl ?_
      rw [step, hresult]
      rfl
  | _ => exact .inl rfl

/-- Until new ones are issued each recovery code lets someone in once at most, and only those that were issued do. -/
theorem recovered_nodup (h : ∀ event ∈ events, event.keepsCodes = true) :
    (recovered (results crypto user events)).Nodup ∧ recovered (results crypto user events) ⊆ user.recoveryCodes := by
  induction events generalizing user with
  | nil => exact ⟨List.nodup_nil, fun _ h => absurd h List.not_mem_nil⟩
  | cons event events ih =>
    have hrest := fun e he => h e (List.mem_cons_of_mem event he)
    obtain ⟨hnodup, hsubset⟩ : (recovered (results crypto (step crypto user event).1 events)).Nodup ∧ _ := ih hrest
    have hkept : (step crypto user event).1.recoveryCodes ⊆ user.recoveryCodes := step_codes (h event List.mem_cons_self)
    rw [results_cons, recovered, List.filterMap_append, ← recovered, ← recovered]
    rcases step_recovered crypto user event with hnone | ⟨code, hcode, hmem, hspent⟩
    · rw [hnone]
      exact ⟨hnodup, fun other hother => hkept (hsubset hother)⟩
    · rw [hcode]
      refine ⟨List.nodup_cons.2 ⟨fun hagain => hspent (hsubset hagain), hnodup⟩, fun other hother => ?_⟩
      rcases List.mem_cons.1 hother with rfl | hother
      · exact hmem
      · exact hkept (hsubset hother)

/-- Two codes are on file, and one of them is tried twice. -/
theorem recovered_twice :
    let user : User := ⟨"right", true, true, some "totp", ["a1", "b2"], 0, none⟩
    let events : List Event := ["A1", "a1", "b2"].map fun code =>
      .login { password := "right", totp := some code.toLower, readAt := 0, writtenAt := 0 }
    recovered (results plain user events) = ["a1", "b2"] ∧ (recovered (results plain user events)).Nodup ∧
      recovered (results plain user events) ⊆ user.recoveryCodes := by
  intro user events
  exact ⟨by decide +kernel, recovered_nodup (by decide +kernel)⟩

end UltraTorrent.Auth.SignIn
