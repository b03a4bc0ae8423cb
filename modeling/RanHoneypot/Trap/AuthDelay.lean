import RanHoneypot.Data.GoText
import RanHoneypot.Data.GoTime

/-!
# The escalating auth delay

`authSleepUntil` of `trap.go` delays the answer to a failed login. The base delay is multiplied by a
power of two that a machine shift computes from the number of the attempt, and the multiplier is cut
at four. The retry loop of `mysql.go` counts the attempts of a session; without a limit of retries the
counter has no bound. An attempt is the number of a login within its session, from 0 upwards, so the
shift count is never negative.
-/

namespace RanHoneypot.Trap

open GoText

variable (now : ℕ) (tie : Bool) {attempt : ℕ}

/-- The value of a 64-bit `int` or `time.Duration` after an operation with the exact result `x`. -/
def wrap64 (x : ℤ) : ℤ := x.bmod (2 ^ 64)

inductive SleepError where
  | canceled
  | deadlineExceeded
deriving DecidableEq

/-- The moment at which a context is done, if ever, and what its `Err` gives then. -/
structure Context where
  done : Option ℕ
  err : SleepError

def Context.background : Context := ⟨none, .canceled⟩

/-- When `authSleepUntil` returns, and with what. -/
structure Slept where
  finish : ℕ
  error : Option SleepError
deriving DecidableEq

/-- The shift `1 << attempt` and the cut behind it. -/
def authMultiplier (attempt : ℕ) : ℤ :=
  let multiplier := wrap64 (2 ^ attempt)
  if 4 < multiplier then 4 else multiplier

/-- The delay before the deadline is looked at. -/
def authDelay (baseDelay : ℤ) (attempt : ℕ) : ℤ := wrap64 (baseDelay * authMultiplier attempt)

/-- The call at time `now`. A timer whose duration is not positive fires at once. When the timer and
the context are ready at the same moment, `select` takes either; `tie` says that it is the context. -/
def authSleepUntil (ctx : Context) (deadline : Option ℕ) (now : ℕ) (tie : Bool) (baseDelay : ℤ)
    (attempt : ℕ) : Slept :=
  if baseDelay ≤ 0 then ⟨now, none⟩
  else
    let delay := authDelay baseDelay attempt
    let crosses := deadline.any fun deadline ↦ since deadline now < delay
    let delay := if crosses then max (since (deadline.getD now) now) 0 else delay
    let err := if crosses then some .deadlineExceeded else none
    let fires := advance now (max delay 0)
    match ctx.done with
    | none => ⟨fires, err⟩
    | some done =>
      if max now done < fires ∨ (max now done = fires ∧ tie) then ⟨max now done, some ctx.err⟩
      else ⟨fires, err⟩

/-- The time slept without a deadline under a context that is never done. -/
def authSlept (baseDelay : ℤ) (attempt : ℕ) : ℤ :=
  since (authSleepUntil .background none now tie baseDelay attempt).finish now

/-! ## The multiplier -/

theorem wrap64_of_range {x : ℤ} (hlow : -2 ^ 63 ≤ x) (hhigh : x < 2 ^ 63) : wrap64 x = x := by
  apply Int.bmod_eq_of_le
  · omega
  · omega

theorem wrap64_eq_zero (hattempt : 64 ≤ attempt) : wrap64 (2 ^ attempt) = 0 := by
  have hdvd : (2 ^ 64 : ℤ) ∣ 2 ^ attempt := pow_dvd_pow 2 hattempt
  have hmod : (2 ^ attempt : ℤ) % ((2 ^ 64 : ℕ) : ℤ) = 0 := Int.emod_eq_zero_of_dvd hdvd
  rw [wrap64, Int.bmod_def, hmod]
  decide

/-- Below the sign bit the shift is exact, and the cut leaves the smaller of the power and four. -/
theorem authMultiplier_of_lt (hattempt : attempt < 63) :
    authMultiplier attempt = min (2 ^ attempt) 4 := by
  have hpos : (0 : ℤ) < 2 ^ attempt := Int.pow_pos (by decide)
  have hlt : (2 ^ attempt : ℤ) < 2 ^ 63 := Int.pow_lt_pow_of_lt (by decide) hattempt
  have hwrap : wrap64 (2 ^ attempt) = 2 ^ attempt := wrap64_of_range (by omega) hlt
  simp only [authMultiplier, hwrap]
  split
  · next hfour => rw [min_eq_right (le_of_lt hfour)]
  · next hfour => rw [min_eq_left (not_lt.mp hfour)]

/-- At the sign bit and past it the multiplier is not positive, so the cut does not apply. -/
theorem authMultiplier_of_le (hattempt : 63 ≤ attempt) :
    authMultiplier attempt = -2 ^ 63 ∨ authMultiplier attempt = 0 := by
  rcases Nat.eq_or_lt_of_le hattempt with heq | hlt
  · left
    rw [← heq]
    decide
  · right
    simp only [authMultiplier, wrap64_eq_zero hlt]
    decide

/-! ## The time slept -/

section

variable {baseDelay : ℤ} (hpos : 0 < baseDelay)

include hpos

theorem authSlept_eq (attempt : ℕ) :
    authSlept now tie baseDelay attempt = max (authDelay baseDelay attempt) 0 := by
  have hneg : ¬ baseDelay ≤ 0 := not_le.mpr hpos
  simp only [authSlept, authSleepUntil, Context.background, if_neg hneg, Option.any_none,
    Bool.false_eq_true, if_false, since, advance]
  omega

/-- The law of the delay, as long as the shift does not reach the sign bit. -/
theorem authSlept_of_lt (hlt : baseDelay < 2 ^ 61) (hattempt : attempt < 63) :
    authSlept now tie baseDelay attempt = baseDelay * min (2 ^ attempt) 4 := by
  have hpow : (1 : ℤ) ≤ 2 ^ attempt := Int.pow_pos (by decide)
  have hhigh : min (2 ^ attempt : ℤ) 4 ≤ 4 := min_le_right ..
  have hprod : 0 < baseDelay * min (2 ^ attempt) 4 := Int.mul_pos hpos (by omega)
  have hbound : baseDelay * min (2 ^ attempt) 4 < 2 ^ 63 := by
    calc baseDelay * min (2 ^ attempt) 4 ≤ baseDelay * 4 :=
          Int.mul_le_mul_of_nonneg_left hhigh (le_of_lt hpos)
      _ < 2 ^ 61 * 4 := Int.mul_lt_mul_of_pos_right hlt (by decide)
      _ = 2 ^ 63 := by decide
  rw [authSlept_eq _ _ hpos, authDelay, authMultiplier_of_lt hattempt,
    wrap64_of_range (by omega) hbound]
  omega

/-- From the sign bit on nothing is slept: the product is the smallest integer or zero. -/
theorem authSlept_of_le (hattempt : 63 ≤ attempt) : authSlept now tie baseDelay attempt = 0 := by
  have hdelay : authDelay baseDelay attempt ≤ 0 := by
    unfold authDelay wrap64
    rcases authMultiplier_of_le hattempt with hsign | hzero
    · rw [hsign, Int.bmod_def]
      omega
    · rw [hzero, Int.mul_zero]
      decide
  rw [authSlept_eq _ _ hpos]
  omega

end

/-! ## The retries of a session -/

/-- What the client does after it was asked for another password. -/
inductive Reply where
  | password (text : Text)
  | readFails
  | writeFails
deriving DecidableEq

/-- A login attempt of a session: the password it brought and the time slept before the answer. -/
structure Attempt where
  password : Text
  slept : ℤ
deriving DecidableEq

/-- The retry loop of the MySQL trap from attempt number `attempt` on. `replies` holds what the client
does at each round; a session that ends before its next round has no reply left. -/
def mysqlAttempts (now : ℕ) (tie : Bool) (baseDelay : ℤ) (maxRetries : ℕ) (canSwitch : Bool)
    (attempt : ℕ) (password : Text) : List Reply → List Attempt
  | [] => [⟨password, authSlept now tie baseDelay attempt⟩]
  | reply :: rest =>
    ⟨password, authSlept now tie baseDelay attempt⟩ ::
      if !canSwitch ∨ (maxRetries ≠ 0 ∧ maxRetries ≤ attempt + 1) then []
      else
        match reply with
        | .readFails => []
        | .writeFails => []
        | .password next =>
          -- a client that resends its password makes no new attempt
          if next = password then []
          else mysqlAttempts now tie baseDelay maxRetries canSwitch (attempt + 1) next rest

/-! ## The law -/

/-- The delay is the base delay times the smaller of the power of two and four exactly as long as the
shift keeps below the sign bit; up to there it never decreases with the number of the attempt. -/
theorem auth_delay_escalates_iff (now : ℕ) (tie : Bool) (baseDelay : ℤ) (hpos : 0 < baseDelay)
    (hlt : baseDelay < 2 ^ 61) (attempt : ℕ) :
    (authSlept now tie baseDelay attempt = baseDelay * min (2 ^ attempt) 4 ↔ attempt < 63) ∧
      ∀ later, attempt ≤ later → later < 63 →
        authSlept now tie baseDelay attempt ≤ authSlept now tie baseDelay later := by
  refine ⟨⟨?_, authSlept_of_lt _ _ hpos hlt⟩, ?_⟩
  · intro hlaw
    by_contra hattempt
    rw [authSlept_of_le _ _ hpos (not_lt.mp hattempt)] at hlaw
    have hpow : (1 : ℤ) ≤ 2 ^ attempt := Int.pow_pos (by decide)
    have hprod : 0 < baseDelay * min (2 ^ attempt) 4 := Int.mul_pos hpos (by omega)
    omega
  · intro later hle hlater
    have hpow : (2 ^ attempt : ℤ) ≤ 2 ^ later := by
      rcases Nat.exists_eq_add_of_le hle with ⟨gap, rfl⟩
      have hgap : (1 : ℤ) ≤ 2 ^ gap := Int.pow_pos (by decide)
      rw [pow_add]
      exact le_mul_of_one_le_right (le_of_lt (Int.pow_pos (by decide))) hgap
    rw [authSlept_of_lt _ _ hpos hlt (hle.trans_lt hlater),
      authSlept_of_lt now tie hpos hlt hlater]
    exact Int.mul_le_mul_of_nonneg_left (min_le_min_right 4 hpow) (le_of_lt hpos)

/-- A base delay of two seconds at the last attempt that keeps to the law. -/
theorem auth_delay_escalates_two_seconds :
    authSlept 0 false 2000000000 62 = 2000000000 * min (2 ^ 62) 4 :=
  (auth_delay_escalates_iff 0 false 2000000000 (by decide) (by decide) 62).1.mpr (by decide)

/-- A MySQL client that brings 65 different passwords to a trap without a limit of retries: the last
two attempts are not delayed at all. -/
theorem late_attempts_not_delayed :
    (mysqlAttempts 0 false 2000000000 0 true 0 [] ((List.range 64).map fun k ↦
      Reply.password [UInt8.ofNat (k + 1)])).map Attempt.slept =
        2000000000 :: 4000000000 :: List.replicate 61 8000000000 ++ [0, 0] := by
  decide +kernel

end RanHoneypot.Trap
