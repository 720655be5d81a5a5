import Ciphertext.Num.Rounding
import Ciphertext.Client.Session

/-!
# `Backoff` — how long to wait before trying again

The model of `im/client/net/backoff.py`, in rationals with the rounding of a Python
float put where the source computes one. `nominal` raises `factor` to the number of
attempts before it takes the cap, so it is the uncapped power that has to be a float.
From attempt 1024 on it is none (`nominal_overflows`), and the count does not move past
that, because the exception comes before it is raised. Up to there jitter and rounding
keep the delay in the last quarter below the nominal one.

Infinity is left out. `first * power` is never beyond it on the default schedule, and
the cap would be taken then.

`delay_within_iff` is the result: after a reset, and whatever was drawn, the next delay
of the default schedule is within its bounds exactly if fewer than 1024 calls have been
made since. Jitter takes at most a quarter away (`factor_within`), and rounding does not
take the product out of an interval whose ends are floats themselves
(`jittered_within`).
-/

namespace Ciphertext

/-- A Python `float`. -/
def binary64 : FloatFormat := ⟨53, -1074, by norm_num⟩

/-- `x ** n` of a float, which raises `OverflowError` rather than answer infinity. -/
def floatPow (x : ℚ) (n : ℕ) : Except PyErr ℚ :=
  if 2 ^ 1024 ≤ x ^ n then .error .overflowError else .ok (binary64.round (x ^ n))

/-- What `random.random()` answers. -/
structure Random where
  value : ℚ
  nonneg : 0 ≤ value
  lt_one : value < 1

/-- The retry schedule, with `FIRST_DELAY`, `FACTOR`, `MAX_DELAY` and `JITTER` for
defaults. -/
structure Backoff where
  first : ℚ := 1
  factor : ℚ := 2
  maximum : ℚ := 30
  jitter : ℚ := 1 / 4
  attempts : ℕ := 0

namespace Backoff

def reset (b : Backoff) : Backoff := { b with attempts := 0 }

/-- The next delay before jitter. -/
def nominal (b : Backoff) : Except PyErr ℚ := do
  let power ← floatPow b.factor b.attempts
  return min (binary64.round (b.first * power)) b.maximum

/-- `delay * (1.0 - random.random() * jitter)`. -/
def jittered (delay jitter : ℚ) (random : Random) : ℚ :=
  binary64.round (delay * binary64.round (1 - binary64.round (random.value * jitter)))

/-- The next delay, with jitter, and advance the schedule. -/
def nextDelay (b : Backoff) (random : Random) : Except PyErr ℚ × Backoff :=
  match b.nominal with
  | .error e => (.error e, b)
  | .ok delay =>
    (.ok (if b.jitter ≤ 0 then delay else jittered delay b.jitter random),
      { b with attempts := b.attempts + 1 })

/-- The schedule after some calls of `next_delay`, however they ended. -/
def after (b : Backoff) (draws : List Random) : Backoff := draws.foldl (fun b r => (b.nextDelay r).2) b

/-! ## The nominal delay -/

/-- The default schedule at some attempt. -/
abbrev atAttempt (n : ℕ) : Backoff := { attempts := n }

theorem representable_two_pow (n : ℕ) : binary64.Representable (2 ^ n) :=
  ⟨1, n, by simp, by norm_num [binary64], by simp [binary64]⟩

theorem floatPow_two {n : ℕ} (h : n < 1024) : floatPow 2 n = .ok (2 ^ n) := by
  have hlt : ¬ (2 : ℚ) ^ 1024 ≤ 2 ^ n := not_le.mpr (pow_lt_pow_right₀ (by norm_num) h)
  rw [floatPow, if_neg hlt, FloatFormat.round_fixed (representable_two_pow n)]

theorem nominal_default {n : ℕ} (h : n < 1024) : (atAttempt n).nominal = .ok (min (2 ^ n) 30) := by
  show (floatPow 2 n >>= fun power => pure (min (binary64.round (1 * power)) 30)) = _
  rw [floatPow_two h]
  show Except.ok (min (binary64.round (1 * 2 ^ n)) 30) = _
  rw [one_mul, FloatFormat.round_fixed (representable_two_pow n)]

/-- The power is too large for a float before the cap is looked at. -/
theorem nominal_overflows {n : ℕ} (h : 1024 ≤ n) : (atAttempt n).nominal = .error .overflowError := by
  have hle : (2 : ℚ) ^ 1024 ≤ 2 ^ n := pow_le_pow_right₀ (by norm_num) h
  show (floatPow 2 n >>= fun power => pure (min (binary64.round (1 * power)) 30)) = _
  rw [floatPow, if_pos hle]
  rfl

/-- The supervisor's model counts in whole seconds and has the same schedule. -/
theorem nominal_session (n k : ℕ) : Client.nominal n = .ok k ↔ (atAttempt n).nominal = .ok (k : ℚ) := by
  by_cases h : n < 1024
  · have hnominal : Client.nominal n = .ok (min (2 ^ n) 30) := by
      unfold Client.nominal Client.overflowsAt
      rw [if_neg (Nat.not_le.mpr h), Client.firstDelay, Nat.one_mul]
      rfl
    rw [hnominal, nominal_default h, Except.ok.injEq, Except.ok.injEq]
    norm_cast
  · have hlarge : 1024 ≤ n := Nat.not_lt.mp h
    unfold Client.nominal Client.overflowsAt
    rw [nominal_overflows hlarge, if_pos hlarge]
    simp

/-! ## Jitter -/

theorem representable_quarters {m : ℕ} (h : m < 2 ^ 53) : binary64.Representable (m / 4) :=
  ⟨m, -2, by norm_num [div_eq_mul_inv], h, by norm_num [binary64]⟩

/-- What a delay is multiplied by. -/
theorem factor_within (random : Random) :
    3 / 4 ≤ binary64.round (1 - binary64.round (random.value * (1 / 4))) ∧
      binary64.round (1 - binary64.round (random.value * (1 / 4))) ≤ 1 := by
  have hzero : 0 ≤ binary64.round (random.value * (1 / 4)) :=
    FloatFormat.round_nonneg (mul_nonneg random.nonneg (by norm_num))
  have hquarter : binary64.round (random.value * (1 / 4)) ≤ 1 / 4 := by
    -- zero is no number that `round_le` is about
    rcases random.nonneg.eq_or_lt with hv | hv
    · rw [← hv, zero_mul, FloatFormat.round_fixed (by simpa using representable_quarters (m := 0) (by norm_num))]
      norm_num
    · refine FloatFormat.round_le (by positivity) ?_ (by simpa using representable_quarters (m := 1) (by norm_num))
      have hlt := random.lt_one
      linarith
  have hlow : binary64.Representable (3 / 4) := by simpa using representable_quarters (m := 3) (by norm_num)
  have hone : binary64.Representable 1 := by
    have h := representable_quarters (m := 4) (by norm_num)
    norm_num at h
    exact h
  constructor
  · exact FloatFormat.le_round (by norm_num) (by linarith) hlow
  · exact FloatFormat.round_le (by linarith) (by linarith) hone

/-- A delay that is a float, and three quarters of which are one, is not left by jitter. -/
theorem jittered_within {delay : ℚ} (hpos : 0 < delay) (hrep : binary64.Representable delay)
    (hlow : binary64.Representable (3 / 4 * delay)) (random : Random) :
    3 / 4 * delay ≤ jittered delay (1 / 4) random ∧ jittered delay (1 / 4) random ≤ delay := by
  obtain ⟨h34, h1⟩ := factor_within random
  constructor
  · refine FloatFormat.le_round (by positivity) ?_ hlow
    rw [mul_comm]
    exact mul_le_mul_of_nonneg_left h34 hpos.le
  · refine FloatFormat.round_le (by positivity) ?_ hrep
    exact mul_le_of_le_one_right hpos.le h1

theorem nominal_representable (n : ℕ) :
    binary64.Representable (min (2 ^ n) 30) ∧ binary64.Representable (3 / 4 * min (2 ^ n) 30) := by
  -- three quarters of a power of two are three of a smaller one
  rcases le_total ((2 : ℚ) ^ n) 30 with h | h
  · rw [min_eq_left h]
    refine ⟨representable_two_pow n, 3, n - 2, ?_, by norm_num [binary64], by simp [binary64]; omega⟩
    rw [zpow_sub₀ (by norm_num), zpow_natCast]
    norm_num
    ring
  · rw [min_eq_right h]
    constructor
    · have h30 := representable_quarters (m := 120) (by norm_num)
      norm_num at h30
      exact h30
    · have h90 := representable_quarters (m := 90) (by norm_num)
      norm_num at h90 ⊢
      exact h90

/-! ## One call after the other -/

theorem nextDelay_default {n : ℕ} (h : n < 1024) (random : Random) :
    (atAttempt n).nextDelay random = (.ok (jittered (min (2 ^ n) 30) (1 / 4) random), atAttempt (n + 1)) := by
  have hjitter : ¬ (1 / 4 : ℚ) ≤ 0 := by norm_num
  unfold nextDelay
  rw [nominal_default h]
  dsimp only
  rw [if_neg hjitter]

/-- The call that raises does not count. -/
theorem nextDelay_overflows {n : ℕ} (h : 1024 ≤ n) (random : Random) :
    (atAttempt n).nextDelay random = (.error .overflowError, atAttempt n) := by
  unfold nextDelay
  rw [nominal_overflows h]

/-- The count stops where the power stops being a float. -/
theorem after_default (draws : List Random) :
    ∀ {n : ℕ}, n ≤ 1024 → (atAttempt n).after draws = atAttempt (min (n + draws.length) 1024) := by
  induction draws with
  | nil =>
    intro n h
    rw [List.length_nil, Nat.add_zero, Nat.min_eq_left h]
    rfl
  | cons r draws ih =>
    intro n h
    -- the next call counts or raises, and a count of 1024 stays
    show (((atAttempt n).nextDelay r).2).after draws = _
    rcases h.lt_or_eq with hlt | rfl
    · rw [nextDelay_default hlt, ih hlt, List.length_cons]
      congr 2
      omega
    · rw [nextDelay_overflows le_rfl, ih le_rfl, List.length_cons, Nat.min_eq_right (by omega),
        Nat.min_eq_right (by omega)]

/-- **The default schedule is bounded for 1024 calls.** Whatever came before the reset
and whatever is drawn, the next delay is within the last quarter below the nominal one
exactly when fewer calls than that have been made since. -/
theorem delay_within_iff (attempts : ℕ) (draws : List Random) (random : Random) :
    (∃ delay, (((atAttempt attempts).reset.after draws).nextDelay random).1 = .ok delay ∧
        3 / 4 * min (2 ^ draws.length) 30 ≤ delay ∧ delay ≤ min (2 ^ draws.length) 30) ↔
      draws.length < 1024 := by
  have hafter : (atAttempt attempts).reset.after draws = atAttempt (min draws.length 1024) := by
    show (atAttempt 0).after draws = _
    rw [after_default draws (by omega), Nat.zero_add]
  rw [hafter]
  constructor
  · intro h
    obtain ⟨delay, hok, -, -⟩ := h
    by_contra hlarge
    rw [nextDelay_overflows (by omega)] at hok
    cases hok
  · intro h
    rw [Nat.min_eq_left h.le, nextDelay_default h]
    obtain ⟨hrep, hlow⟩ := nominal_representable draws.length
    exact ⟨_, rfl, jittered_within (by positivity) hrep hlow random⟩

/-- The 1025th call of an outage. -/
theorem longOutage_overflows :
    (((atAttempt 0).reset.after (List.replicate 1024 ⟨0, le_rfl, one_pos⟩)).nextDelay ⟨0, le_rfl, one_pos⟩).1 =
      .error .overflowError := by
  show (((atAttempt 0).after _).nextDelay _).1 = _
  rw [after_default _ (by omega), List.length_replicate, nextDelay_overflows (by omega)]

end Backoff

end Ciphertext
