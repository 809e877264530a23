import HeadlessMcp.Async.Solo
import HeadlessMcp.Registry.Relisting

/-!
# The reconnect delay

`run_health_checks` waits before it reconnects a backend, twice as long after every failure and
a minute at most. The attempts of a backend that stays down are counted without a bound
(`attempts_reached`), and the product is taken in `u64` before the cap: from the 56th attempt on it
does not fit (`backsOff_iff`), and from the 62nd on nothing is left of it.
-/

namespace HeadlessMcp

open Async

/-- The delay that is meant, over the natural numbers. It is a second for the first attempt, twice
as long for each one after that, and a minute at most. -/
def backoffDelay (attempt : Nat) : Nat := min (1000 * 2 ^ (attempt - 1)) 60000

theorem backoffDelay_mono {m n : Nat} (h : m ≤ n) : backoffDelay m ≤ backoffDelay n := by
  have hpow : 2 ^ (m - 1) ≤ 2 ^ (n - 1) := Nat.pow_le_pow_right (by omega) (by omega)
  simp only [backoffDelay]
  omega

theorem backoffDelay_bounds (n : Nat) : 1000 ≤ backoffDelay n ∧ backoffDelay n ≤ 60000 := by
  have hpow : 0 < 2 ^ (n - 1) := Nat.two_pow_pos _
  simp only [backoffDelay]
  omega

/-- The delay before an attempt is computed without an overflow, and is what is meant. -/
structure BacksOff (attempt : Nat) : Prop where
  pow_fits : 2 ^ (attempt - 1) < 2 ^ 64
  product_fits : 1000 * 2 ^ (attempt - 1) < 2 ^ 64
  delay : reconnectDelay attempt = backoffDelay attempt
  monotone : ∀ earlier, 1 ≤ earlier → earlier ≤ attempt →
    reconnectDelay earlier ≤ reconnectDelay attempt
  bounds : 1000 ≤ reconnectDelay attempt ∧ reconnectDelay attempt ≤ 60000

/-- The product of an early attempt fits. -/
theorem product_lt {n : Nat} (h : n ≤ 55) : 1000 * 2 ^ (n - 1) < 2 ^ 64 := by
  have hpow : 2 ^ (n - 1) ≤ 2 ^ 54 := Nat.pow_le_pow_right (by omega) (by omega)
  omega

/-- The product of a late one does not. -/
theorem product_ge {n : Nat} (h : 55 < n) : 2 ^ 64 ≤ 1000 * 2 ^ (n - 1) := by
  have hpow : 2 ^ 55 ≤ 2 ^ (n - 1) := Nat.pow_le_pow_right (by omega) (by omega)
  omega

/-- A product that fits is not reduced. -/
theorem reconnectDelay_of_fits {n : Nat} (h : 1000 * 2 ^ (n - 1) < 2 ^ 64) :
    reconnectDelay n = backoffDelay n := by
  have hpow : 2 ^ (n - 1) < 2 ^ 64 := by omega
  rw [reconnectDelay, Nat.mod_eq_of_lt hpow, Nat.mod_eq_of_lt h, backoffDelay]

/-- **The delay is right up to the 55th attempt**, and only there is it computed without an
overflow. After that the power of two no longer fits when it is made a number of milliseconds, and
with the 65th attempt it does not fit itself. -/
theorem backsOff_iff (attempt : Nat) : BacksOff attempt ↔ attempt ≤ 55 := by
  constructor
  · intro hback
    by_contra hlate
    have hfits := hback.product_fits
    have hge := product_ge (not_le.mp hlate)
    omega
  · intro hearly
    have hfits := product_lt hearly
    have hdelay := reconnectDelay_of_fits hfits
    refine ⟨by omega, hfits, hdelay, fun earlier _hpos hle => ?_, ?_⟩
    · rw [hdelay, reconnectDelay_of_fits (product_lt (hle.trans hearly))]
      exact backoffDelay_mono hle
    · rw [hdelay]
      exact backoffDelay_bounds attempt

/-! ## A backend that stays down -/

/-- Round after round of health checks. -/
def healthRounds : Nat → Prog RegistryOp Unit
  | 0 => .ret ()
  | n + 1 => do
    healthRounds n
    Registry.runHealthChecks

/-- A backend that could not be connected so many times. It is registered, and nothing of it is
indexed. -/
def downBackend (attempts : Nat) : RegistryWorld Unit :=
  { RegistryWorld.empty Unit with
    backends := [("x", ⟨bareBackend "x", 0, false, none, attempts⟩)] }

/-- The steps of a round: the backend is counted, and cannot be connected. -/
def failedRound : List RegistryChoice := List.replicate 6 {}

theorem solo_failedRound {n : Nat} (h : n + 1 < 2 ^ 32) :
    (registryMachine Unit).solo () Registry.runHealthChecks failedRound (downBackend n) =
      some (.done (), downBackend (n + 1)) := by
  have hround : (registryMachine Unit).solo () Registry.runHealthChecks failedRound
      (downBackend n) = some (.done (), downBackend ((n + 1) % 2 ^ 32)) := rfl
  rw [hround, Nat.mod_eq_of_lt h]

/-- **Every count is reached**: the counter of a backend that stays down has no bound below that
of its type. -/
theorem attempts_reached (n : Nat) (h : n < 2 ^ 32) :
    ∃ es, (registryMachine Unit).solo () (healthRounds n) es (downBackend 0) =
      some (.done (), downBackend n) := by
  induction n with
  | zero => exact ⟨[], rfl⟩
  | succ n ih =>
    obtain ⟨es, hrounds⟩ := ih (by omega)
    refine ⟨es ++ failedRound, ?_⟩
    rw [healthRounds, Prog.bind_eq, Machine.solo_bind _ hrounds]
    exact solo_failedRound h

/-- The 56th attempt overflows, and the 62nd is made at once; both are reached. -/
theorem backoff_overflows :
    (∃ es, (registryMachine Unit).solo () (healthRounds 56) es (downBackend 0) =
      some (.done (), downBackend 56)) ∧ ¬ BacksOff 56 ∧
    (∃ es, (registryMachine Unit).solo () (healthRounds 62) es (downBackend 0) =
      some (.done (), downBackend 62)) ∧ reconnectDelay 62 = 0 := by
  refine ⟨attempts_reached 56 (by omega), fun h => ?_, attempts_reached 62 (by omega), by decide⟩
  have hfits := h.product_fits
  have hge := product_ge (show 55 < 56 by omega)
  omega

end HeadlessMcp
