import MarketPlace.BackendOutlines

/-!
# Runs given move by move

A deployment with transparent libraries and the moves to drive it, for the
runs that are evaluated.
-/

namespace MarketPlace

open Interleaving

/-- Libraries that keep what they are given, so that equal results come from
equal arguments. -/
def transparentLibraries : Libraries where
  createHmac secret message := secret ++ "/" ++ message
  bcryptHash password _ salt := salt ++ "$" ++ password
  bcryptCompare password hash :=
    (hash.toList.dropWhile (· ≠ '$')).drop 1 = password.toList
  jwtLifetime ttl := parseTtlSeconds ttl

/-- The defaults of the environment, without Redis. -/
def sampleConfig (otpProvider : OtpProvider) : AppConfig where
  jwtAccessSecret := "access-secret"
  jwtRefreshSecret := "refresh-secret"
  jwtAccessTtl := "15m"
  jwtRefreshTtl := "30d"
  otpSigningSecret := "otp-secret"
  otpProvider := otpProvider
  otpTtlMinutes := 10
  otpDevMode := false
  redisUrl := none

def sampleDeployment (otpProvider : OtpProvider) : Deployment :=
  ⟨sampleConfig otpProvider, transparentLibraries⟩

/-- Services answer, nothing fails, and the code drawn is 100000. -/
def sampleDraw : Draw where
  otp := 0
  salt := "salt"
  jti := "jti"
  passwordSalt := ""
  transactionReqID := "transaction"
  akedlyCode := "111111"
  akedly := .answers
  rejection := ⟨400, none, none⟩
  redisFails := false
  databaseFails := false

variable {ρ η : Type}

/-- A request is submitted as number `i` and then acts `count` times with
nobody else acting. -/
def aloneUnder (draw : Draw) (i : ℕ) (request : ρ) (count : ℕ) :
    List (Move ρ Draw η) :=
  .submit request :: List.replicate count (.advance i draw)

def alone (i : ℕ) (request : ρ) (count : ℕ) : List (Move ρ Draw η) :=
  aloneUnder sampleDraw i request count

theorem exists_reachable_of_run {app : Deployment} {now : ℕ}
    {moves : List (Move Request Draw Surroundings)}
    {check : Pool Request Draw World HttpError Response → Bool}
    (hrun : ((backend app).run moves (Pool.start now)).any check = true) :
    ∃ pool, Reachable app pool ∧ check pool = true := by
  obtain ⟨pool, hreach, hcheck⟩ := System.exists_reaches_of_run hrun
  exact ⟨pool, ⟨now, hreach⟩, hcheck⟩

end MarketPlace
