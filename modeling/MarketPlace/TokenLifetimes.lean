import MarketPlace.GivenRuns
import MarketPlace.LoneHandlers
import Mathlib.Data.Rat.Floor

/-!
# Two readings of a lifetime

The text of the configuration that says how long a refresh token lives is read
twice: by the library, for the time signed into the token, and by
`parseTtlSeconds`, for the row of its jti.  The second reading knows less, and
takes what it does not know for thirty days.
-/

namespace MarketPlace

open Interleaving Relational

/-! ## The library's durations -/

/-- A decimal number, and the text after it. -/
def readNumber (text : List Char) : Option (ℚ × List Char) :=
  let whole := text.takeWhile Char.isDigit
  match text.dropWhile Char.isDigit with
  | '.' :: rest =>
      let fraction := rest.takeWhile Char.isDigit
      if fraction = [] then none
      else
        some (decimal whole + decimal fraction / 10 ^ fraction.length,
          rest.dropWhile Char.isDigit)
  | rest => if whole = [] then none else some (decimal whole, rest)

/-- The units in milliseconds; a year has 365.25 days. -/
def unitSpellings : List (String × ℕ) :=
  [("milliseconds", 1), ("millisecond", 1), ("msecs", 1), ("msec", 1), ("ms", 1),
    ("seconds", 1000), ("second", 1000), ("secs", 1000), ("sec", 1000),
    ("s", 1000),
    ("minutes", 60000), ("minute", 60000), ("mins", 60000), ("min", 60000),
    ("m", 60000),
    ("hours", 3600000), ("hour", 3600000), ("hrs", 3600000), ("hr", 3600000),
    ("h", 3600000),
    ("days", 86400000), ("day", 86400000), ("d", 86400000),
    ("weeks", 604800000), ("week", 604800000), ("w", 604800000),
    ("years", 31557600000), ("year", 31557600000), ("yrs", 31557600000),
    ("yr", 31557600000), ("y", 31557600000)]

/-- A unit in any case; milliseconds if there is none. -/
def unitMilliseconds (unit : List Char) : Option ℕ :=
  if unit = [] then some 1
  else unitSpellings.lookup (String.ofList (unit.map Char.toLower))

/-- The milliseconds of a text that the library takes for a duration: a number,
spaces and a unit, in at most 100 characters. -/
def durationMs (text : String) : Option ℚ :=
  if 100 < text.length then none
  else
    (readNumber text.toList).bind fun number =>
      (unitMilliseconds (number.2.dropWhile fun c => c = ' ')).map
        fun (unit : ℕ) => number.1 * (unit : ℚ)

/-- `Math.floor(iat + milliseconds / 1000) - iat`. -/
def lifetimeOf (ms : ℚ) : ℕ := ⌊ms / 1000⌋.toNat

/-- The library signs the lifetime of the duration. -/
def Libraries.ReadsDurations (libraries : Libraries) : Prop :=
  ∀ text ms, durationMs text = some ms →
    libraries.jwtLifetime text = lifetimeOf ms

/-! ## Where the two readings agree -/

/-- A whole number directly followed by s, m, h or d. -/
def IsPlain (ttl : String) : Prop :=
  ∃ digits unit, ttl.toList = digits ++ [unit] ∧ digits ≠ [] ∧
    digits.all Char.isDigit = true ∧ unit ∈ ['s', 'm', 'h', 'd']

variable {ttl : String} {ms : ℚ} {digits : List Char} {unit : Char}

theorem unitSeconds_isSome :
    (unitSeconds unit).isSome = true ↔ unit ∈ ['s', 'm', 'h', 'd'] := by
  unfold unitSeconds
  simp only [List.mem_cons, List.not_mem_nil, or_false]
  repeat' split
  all_goals simp_all

theorem parseTtlSeconds_of_plain {seconds : ℕ}
    (htext : ttl.toList = digits ++ [unit]) (hne : digits ≠ [])
    (hdigits : digits.all Char.isDigit = true)
    (hunit : unitSeconds unit = some seconds) :
    parseTtlSeconds ttl = decimal digits * seconds := by
  have hreverse : ttl.toList.reverse = unit :: digits.reverse := by
    rw [htext, List.reverse_append, List.reverse_singleton,
      List.singleton_append]
  have hguard : digits.reverse ≠ [] ∧
      digits.reverse.all Char.isDigit = true := by
    rw [List.all_reverse]
    exact ⟨by simpa using hne, hdigits⟩
  rw [parseTtlSeconds, hreverse]
  simp only [hunit]
  rw [if_pos hguard, List.reverse_reverse]

theorem parseTtlSeconds_of_not_plain (h : ¬ IsPlain ttl) :
    parseTtlSeconds ttl = refreshTtlFallbackSeconds := by
  rw [parseTtlSeconds]
  cases hreverse : ttl.toList.reverse with
  | nil => rfl
  | cons last front =>
      cases hunit : unitSeconds last with
      | none => simp only [hunit]
      | some seconds =>
          simp only [hunit]
          refine if_neg fun hguard => h ⟨front.reverse, last, ?_, ?_, ?_, ?_⟩
          · rw [← List.reverse_reverse ttl.toList, hreverse,
              List.reverse_cons]
          · simpa using hguard.1
          · rw [List.all_reverse]
            exact hguard.2
          · exact unitSeconds_isSome.mp (by rw [hunit]; rfl)

theorem readNumber_append (hne : digits ≠ [])
    (hdigits : digits.all Char.isDigit = true)
    (hunit : unit.isDigit = false) (hdot : unit ≠ '.') :
    readNumber (digits ++ [unit]) = some ((decimal digits : ℚ), [unit]) := by
  have hall : ∀ c ∈ digits, c.isDigit = true := List.all_eq_true.mp hdigits
  have htake : (digits ++ [unit]).takeWhile Char.isDigit = digits := by
    rw [List.takeWhile_append_of_pos hall, List.takeWhile_cons_of_neg (by simp [hunit]),
      List.append_nil]
  have hdrop : (digits ++ [unit]).dropWhile Char.isDigit = [unit] := by
    rw [List.dropWhile_append_of_pos hall, List.dropWhile_cons_of_neg (by simp [hunit])]
  rw [readNumber, htake, hdrop]
  simp only [hne, if_false]
  split
  · next heq => exact absurd (List.cons.inj heq).1 hdot
  · rfl

theorem unitMilliseconds_plain {seconds : ℕ}
    (hunit : unitSeconds unit = some seconds) :
    unitMilliseconds ([unit].dropWhile fun c => c = ' ') =
      some (seconds * 1000) := by
  have hmem := unitSeconds_isSome.mp (Option.isSome_of_mem hunit)
  simp only [List.mem_cons, List.not_mem_nil, or_false] at hmem
  rcases hmem with rfl | rfl | rfl | rfl <;>
    (obtain rfl := Option.some.inj hunit; decide +kernel)

/-- The library reads a plain text as it looks. -/
theorem durationMs_of_plain {seconds : ℕ} (hshort : ¬ 100 < ttl.length)
    (htext : ttl.toList = digits ++ [unit]) (hne : digits ≠ [])
    (hdigits : digits.all Char.isDigit = true)
    (hunit : unitSeconds unit = some seconds) :
    durationMs ttl = some (((decimal digits * seconds : ℕ) : ℚ) * 1000) := by
  have hmem := unitSeconds_isSome.mp (Option.isSome_of_mem hunit)
  have hplain : unit.isDigit = false ∧ unit ≠ '.' := by
    simp only [List.mem_cons, List.not_mem_nil, or_false] at hmem
    rcases hmem with rfl | rfl | rfl | rfl <;> decide
  rw [durationMs, if_neg hshort, htext,
    readNumber_append hne hdigits hplain.1 hplain.2, Option.bind_some, unitMilliseconds_plain hunit, Option.map_some]
  push_cast
  rw [mul_assoc]

theorem lifetimeOf_seconds (seconds : ℕ) :
    lifetimeOf ((seconds : ℚ) * 1000) = seconds := by
  have hcancel : (seconds : ℚ) * 1000 / 1000 = seconds :=
    mul_div_cancel_right₀ _ (by norm_num)
  rw [lifetimeOf, hcancel]
  simp

/-- Both readings of a duration are the same exactly for a plain text and for
thirty days. -/
theorem parseTtlSeconds_eq_iff (hms : durationMs ttl = some ms) :
    parseTtlSeconds ttl = lifetimeOf ms ↔
      IsPlain ttl ∨ lifetimeOf ms = 30 * 86400 := by
  by_cases hplain : IsPlain ttl
  · obtain ⟨digits, unit, htext, hne, hdigits, hmem⟩ := hplain
    obtain ⟨seconds, hunit⟩ :=
      Option.isSome_iff_exists.mp (unitSeconds_isSome.mpr hmem)
    have hshort : ¬ 100 < ttl.length :=
      (Option.ite_none_left_eq_some.mp hms).1
    have hread := durationMs_of_plain hshort htext hne hdigits hunit
    obtain rfl := Option.some.inj (hread.symm.trans hms)
    rw [parseTtlSeconds_of_plain htext hne hdigits hunit, lifetimeOf_seconds]
    exact iff_of_true rfl (.inl ⟨digits, unit, htext, hne, hdigits, hmem⟩)
  · rw [parseTtlSeconds_of_not_plain hplain, eq_comm]
    exact ⟨.inr, fun h => h.resolve_left hplain⟩

/-! ## The tokens and the rows -/

section Generated

variable {app : Deployment} {i : ℕ} {ws : List Draw} {w t : World}
  {userId : ℕ} {phone : String} {isAdmin : Bool} {tokenVersion : ℕ}
  {queryRunner : Option Client} {tokens : Tokens}

/-- A statement's own writes are seen by the next one. -/
theorem World.viewFor_write (client : Option Client) (write : Write) :
    (w.write client i write).viewFor client i =
      (w.viewFor client i).apply write := by
  cases client with
  | none => rfl
  | some client =>
      simp [World.write, World.enqueue, World.viewFor, ReadCommitted.Store.view,
        ReadCommitted.Schema.settle]
      rfl

theorem Database.get_saveRefreshToken (db : Database) (jti : String)
    (userId expiresAt : ℕ) :
    (db.apply (.saveRefreshToken jti userId expiresAt)).authRefreshTokens.get
      jti = some ⟨jti, userId, expiresAt, none⟩ := by
  have hsaved := Table.get_upsert_self db.authRefreshTokens
    ⟨jti, userId, expiresAt, none⟩
    (fun row =>
      { row with
        userId := userId, expiresAt := expiresAt, revokedAt := none })
    fun _ => rfl
  cases hget : db.authRefreshTokens.get jti with
  | none =>
      rw [hget] at hsaved
      exact hsaved
  | some row =>
      have hjti : row.jti = jti := Table.key_of_get hget
      rw [hget, Option.elim_some, hjti] at hsaved
      exact hsaved

/-- The row of a jti lives as long as the second reading says, from the time
of the statement on, and the token as long as the library says, from the time
of the signature on. -/
theorem ends_generateTokens_ok
    (h : (generateTokens app userId phone isAdmin tokenVersion queryRunner).Ends
      i ws w (.ok tokens) t) :
    ∃ jti, tokens.refreshToken.jti = some jti ∧
      tokens.refreshToken.exp =
        w.seconds + app.libraries.jwtLifetime app.config.jwtRefreshTtl ∧
      (t.viewFor queryRunner i).authRefreshTokens.get jti =
        some ⟨jti, userId, w.nowFor queryRunner +
          microseconds (parseTtlSeconds app.config.jwtRefreshTtl), none⟩ := by
  rw [generateTokens_eq] at h
  obtain ⟨d, rest, rfl, hsigned⟩ := ends_draw_bind h
  obtain ⟨_, _, _, redis, _, _, ⟨_, herror, _⟩ | ⟨_, hok, rfl⟩⟩ :=
    ends_signAndSave hsigned
  · contradiction
  obtain rfl := Except.ok.inj hok
  refine ⟨d.jti, rfl, rfl, ?_⟩
  rw [World.viewFor_write]
  exact Database.get_saveRefreshToken _ _ _ _

/-- The row that `generateTokens` stores lives as long as the refresh token
that it signs exactly if the configured lifetime is plain or is thirty
days. -/
theorem refresh_lifetimes_agree_iff
    (hlibrary : app.libraries.ReadsDurations)
    (hduration : durationMs app.config.jwtRefreshTtl = some ms)
    (hends : (generateTokens app userId phone isAdmin tokenVersion
      queryRunner).Ends i ws w (.ok tokens) t) :
    ∃ jti row, tokens.refreshToken.jti = some jti ∧
      (t.viewFor queryRunner i).authRefreshTokens.get jti = some row ∧
      row.userId = userId ∧
      (row.expiresAt = w.nowFor queryRunner +
          microseconds (tokens.refreshToken.exp - w.seconds) ↔
        IsPlain app.config.jwtRefreshTtl ∨ lifetimeOf ms = 30 * 86400) := by
  obtain ⟨jti, hjti, hexp, hrow⟩ := ends_generateTokens_ok hends
  have hsigned : tokens.refreshToken.exp - w.seconds = lifetimeOf ms := by
    rw [hexp, hlibrary _ _ hduration]
    omega
  refine ⟨jti, _, hjti, hrow, rfl, ?_⟩
  rw [hsigned, ← parseTtlSeconds_eq_iff hduration]
  simp only [microseconds]
  omega

/-- The library for all texts that it takes for durations. -/
def durationLibraries : Libraries :=
  { transparentLibraries with
    jwtLifetime := fun text => (durationMs text).elim 0 lifetimeOf }

theorem durationLibraries_reads : durationLibraries.ReadsDurations := by
  intro text ms hms
  simp [durationLibraries, hms]

/-- A deployment whose refresh tokens live as long as the text says. -/
def livingFor (ttl : String) : Deployment :=
  ⟨{ sampleConfig .console with jwtRefreshTtl := ttl }, durationLibraries⟩

theorem exists_generated (ttl : String) :
    ∃ tokens t, (generateTokens (livingFor ttl) 1 "+201" false 0 none).Ends 0
      [sampleDraw, sampleDraw, sampleDraw] (World.initial 0) (.ok tokens) t :=
  ⟨_, _, Program.ends_of_runUnder rfl⟩

theorem refresh_lifetimes_agree_iff_hours :
    ∃ tokens t jti row, (generateTokens (livingFor "36h") 1 "+201" false 0
        none).Ends 0 [sampleDraw, sampleDraw, sampleDraw] (World.initial 0)
          (.ok tokens) t ∧
      tokens.refreshToken.jti = some jti ∧
      t.db.authRefreshTokens.get jti = some row ∧
      row.expiresAt = microseconds tokens.refreshToken.exp := by
  obtain ⟨tokens, t, hends⟩ := exists_generated "36h"
  have hduration : durationMs "36h" = some 129600000 := by decide +kernel
  obtain ⟨jti, row, hjti, hrow, -, hagree⟩ := @refresh_lifetimes_agree_iff
    _ (livingFor "36h") _ _ _ _ _ _ _ _ _ _ durationLibraries_reads
      hduration hends
  have hexpires : row.expiresAt =
      0 + microseconds (tokens.refreshToken.exp - 0) :=
    hagree.mpr (.inl ⟨['3', '6'], 'h', by decide⟩)
  rw [Nat.zero_add, Nat.sub_zero] at hexpires
  exact ⟨tokens, t, jti, row, hends, hjti, hrow, hexpires⟩

/-- Two weeks are read as thirty days. -/
theorem refresh_lifetimes_disagree :
    ¬ ∀ (app : Deployment) (ms : ℚ) (i : ℕ) (ws : List Draw) (w t : World)
      (userId : ℕ) (phone : String) (isAdmin : Bool) (tokenVersion : ℕ)
      (queryRunner : Option Client) (tokens : Tokens),
      app.libraries.ReadsDurations →
      durationMs app.config.jwtRefreshTtl = some ms →
      (generateTokens app userId phone isAdmin tokenVersion queryRunner).Ends i
        ws w (.ok tokens) t →
      ∃ jti row, tokens.refreshToken.jti = some jti ∧
        (t.viewFor queryRunner i).authRefreshTokens.get jti = some row ∧
        row.expiresAt = w.nowFor queryRunner +
          microseconds (tokens.refreshToken.exp - w.seconds) := by
  intro h
  obtain ⟨tokens, t, hends⟩ := exists_generated "2w"
  have hduration : durationMs "2w" = some 1209600000 := by decide +kernel
  obtain ⟨jti, row, hjti, hrow, hexpires⟩ := h (livingFor "2w") _ 0 _ _ t 1
    "+201" false 0 none tokens durationLibraries_reads hduration hends
  obtain ⟨jti', hjti', hexp, hstored⟩ := ends_generateTokens_ok hends
  obtain rfl := Option.some.inj (hjti.symm.trans hjti')
  obtain rfl := Option.some.inj (hrow.symm.trans hstored)
  have hsigned : (livingFor "2w").libraries.jwtLifetime "2w" = 1209600 := by
    rw [show (livingFor "2w").libraries.jwtLifetime "2w" = _ from
      durationLibraries_reads _ _ hduration]
    decide +kernel
  have hread : parseTtlSeconds "2w" = 2592000 := by decide +kernel
  rw [hexp] at hexpires
  simp only [livingFor] at hexpires hsigned
  rw [hsigned, hread] at hexpires
  simp [microseconds] at hexpires

end Generated

end MarketPlace
