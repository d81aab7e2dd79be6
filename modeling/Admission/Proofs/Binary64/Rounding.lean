import Admission.Binary64.Basic
import Mathlib.Tactic.Linarith
import Mathlib.Tactic.Ring

/-!
# Rounding to the grid of doubles

Rounding a quotient to a whole number, and to a whole number of units with at most 53 significant bits,
depends on the value of the quotient alone, keeps the order of quotients, keeps what needs no rounding,
and moves a quotient by at most half a step of the grid at its size.

## Main results

* `roundDiv_mono`, `Binary64.roundUnits_mono`: rounding keeps order.
* `Binary64.roundUnits_mul_add`, `Binary64.roundUnits_mul_sub`, `Binary64.roundUnits_mul`: a number that has few
  enough significant bits is kept, and so is what lies close above or below it.
* `Binary64.roundUnits_near`: the distance is at most half a step.
* `Binary64.roundUnits_succ_mul_two_pow`: half a step above an even number of steps is rounded down.
-/

namespace Admission

-- Powers of natural numbers are the core library's, whatever else is in scope.
attribute [local instance (high)] instPowNat

variable {num den num' den' : Nat}

/-- The whole parts of two quotients are in the order of the quotients. -/
theorem div_le_div_of_mul_le_mul (positive : 0 < den) (positive' : 0 < den')
    (h : num * den' ≤ num' * den) : num / den ≤ num' / den' := by
  rw [Nat.le_div_iff_mul_le positive']
  refine Nat.le_of_mul_le_mul_right ?_ positive
  calc num / den * den' * den = num / den * den * den' := by ring
    _ ≤ num * den' := Nat.mul_le_mul_right _ (Nat.div_mul_le_self num den)
    _ ≤ num' * den := h

/-- Rounding to whole numbers keeps the order of quotients. -/
theorem roundDiv_mono (positive : 0 < den) (positive' : 0 < den') (h : num * den' ≤ num' * den) :
    roundDiv num den ≤ roundDiv num' den' := by
  have whole : den * (num / den) + num % den = num := Nat.div_add_mod num den
  have whole' : den' * (num' / den') + num' % den' = num' := Nat.div_add_mod num' den'
  have rest := Nat.mod_lt num positive
  have rest' := Nat.mod_lt num' positive'
  rcases Nat.lt_or_eq_of_le (div_le_div_of_mul_le_mul positive positive' h) with less | same
  · exact (roundDiv_le_div_add_one num den).trans ((Nat.succ_le_of_lt less).trans (div_le_roundDiv num' den'))
  · -- Both quotients lie between the same whole numbers, so what is left over decides.
    have left : num % den * den' ≤ num' % den' * den := by
      have := congrArg (· * den') whole
      have := congrArg (· * den) whole'
      simp only [same] at *
      nlinarith
    have half : 2 * (num' % den') ≤ den' → 2 * (num % den) ≤ den := fun small =>
      Nat.le_of_mul_le_mul_right (by nlinarith) positive'
    have halfLess : 2 * (num' % den') < den' → 2 * (num % den) < den := fun small =>
      Nat.lt_of_mul_lt_mul_right (a := den') (by nlinarith)
    simp only [roundDiv, same]
    split <;> split <;> omega

/-- A whole number is what anything above it by less than a half is rounded to, and by a half if it is even. -/
theorem roundDiv_mul_add {num den rest : Nat} (positive : 0 < den)
    (near : 2 * rest < den ∨ 2 * rest = den ∧ num % 2 = 0) : roundDiv (num * den + rest) den = num := by
  have below : rest < den := by omega
  have parts : num * den + rest = rest + den * num := by
    rw [Nat.mul_comm, Nat.add_comm]
  have whole : (num * den + rest) / den = num := by
    rw [parts, Nat.add_mul_div_left _ _ positive, Nat.div_eq_of_lt below, Nat.zero_add]
  have left : (num * den + rest) % den = rest := by
    rw [parts, Nat.add_mul_mod_self_left, Nat.mod_eq_of_lt below]
  rw [roundDiv, whole, left, if_pos near]

/-- A whole number of steps is what anything below it by less than half a step is rounded to, and by half a step if
it is even. -/
theorem roundDiv_mul_sub {num den rest : Nat} (some : 0 < num) (positive : 0 < den)
    (near : 2 * rest < den ∨ 2 * rest = den ∧ num % 2 = 0) : roundDiv (num * den - rest) den = num := by
  rcases Nat.eq_zero_or_pos rest with rfl | more
  · rw [Nat.sub_zero, roundDiv_mul num den positive]
  · have below : rest ≤ den := by omega
    obtain ⟨less, rfl⟩ : ∃ less, num = less + 1 := ⟨num - 1, by omega⟩
    have parts : (less + 1) * den - rest = den - rest + den * less := by
      rw [Nat.succ_mul, Nat.mul_comm less den]
      omega
    have whole : ((less + 1) * den - rest) / den = less := by
      rw [parts, Nat.add_mul_div_left _ _ positive, Nat.div_eq_of_lt (by omega), Nat.zero_add]
    have left : ((less + 1) * den - rest) % den = den - rest := by
      rw [parts, Nat.add_mul_mod_self_left, Nat.mod_eq_of_lt (by omega)]
    rw [roundDiv, whole, left, if_neg (by omega)]

namespace Binary64

/-- The step of the grid of doubles at the size of a quotient, in units. -/
def stepAt (num den : Nat) : Nat := 2 ^ ((num / den).log2 - 52)

theorem stepAt_pos (num den : Nat) : 0 < stepAt num den := Nat.two_pow_pos _

theorem roundUnits_eq (num den : Nat) :
    roundUnits num den = roundDiv num (den * stepAt num den) * stepAt num den := rfl

/-- Rounding moves a quotient by at most half a step. -/
theorem roundUnits_near (positive : 0 < den) :
    2 * (roundUnits num den * den) ≤ 2 * num + den * stepAt num den ∧
      2 * num ≤ 2 * (roundUnits num den * den) + den * stepAt num den := by
  have near := roundDiv_near num (den * stepAt num den) (Nat.mul_pos positive (stepAt_pos num den))
  have same : roundUnits num den * den =
      roundDiv num (den * stepAt num den) * (den * stepAt num den) := by
    rw [roundUnits_eq]
    ring
  rwa [same]

/-- Below 2⁵³ steps of a grid, the step is no coarser than that grid's. -/
theorem stepAt_le {k : Nat} (positive : 0 < den) (h : num < 2 ^ (53 + k) * den) :
    stepAt num den ≤ 2 ^ k := by
  refine Nat.pow_le_pow_right Nat.zero_lt_two ?_
  have less : num / den < 2 ^ (53 + k) := (Nat.div_lt_iff_lt_mul positive).2 h
  rcases Nat.eq_zero_or_pos (num / den) with none | some
  · simp [none]
  · have := (Nat.log2_lt (Nat.ne_of_gt some)).2 less
    omega

/-- From 2⁵² units on, a quotient has at least 2⁵² steps. -/
theorem mul_stepAt_le (positive : 0 < den) (h : 2 ^ (52 : Nat) * den ≤ num) :
    2 ^ (52 : Nat) * (den * stepAt num den) ≤ num := by
  have many : 2 ^ (52 : Nat) ≤ num / den := (Nat.le_div_iff_mul_le positive).2 h
  have nonzero : num / den ≠ 0 := Nat.ne_of_gt (Nat.lt_of_lt_of_le (Nat.two_pow_pos _) many)
  have log : 52 ≤ (num / den).log2 := by
    have := (Nat.log2_lt nonzero (k := 52)).1
    omega
  have low : 2 ^ (52 : Nat) * stepAt num den ≤ num / den := by
    rw [stepAt, ← Nat.pow_add, Nat.add_sub_of_le log]
    exact Nat.log2_self_le nonzero
  calc 2 ^ (52 : Nat) * (den * stepAt num den) = 2 ^ (52 : Nat) * stepAt num den * den := by ring
    _ ≤ num / den * den := Nat.mul_le_mul_right _ low
    _ ≤ num := Nat.div_mul_le_self num den

/-- What is added to a whole number of steps does not reach the next one, let alone the next power of two. -/
theorem stepAt_mul_add (positive : 0 < den) {n r : Nat} (few : 2 ^ (n.log2 - 52) ∣ n)
    (below : r < den * 2 ^ (n.log2 - 52)) : stepAt (n * den + r) den = 2 ^ (n.log2 - 52) := by
  have whole : (n * den + r) / den = n + r / den := by
    rw [Nat.add_comm, Nat.add_mul_div_right _ _ positive, Nat.add_comm]
  have part : r / den < 2 ^ (n.log2 - 52) := Nat.div_lt_of_lt_mul below
  rw [stepAt, whole]
  congr 2
  rcases Nat.eq_zero_or_pos n with rfl | nonzero
  · rw [Nat.log2_zero, Nat.zero_sub, Nat.pow_zero, Nat.lt_one_iff] at part
    rw [part]
  · rw [Nat.log2_eq_iff (Nat.ne_of_gt (nonzero.trans_le (Nat.le_add_right n _)))]
    refine ⟨(Nat.log2_self_le (Nat.ne_of_gt nonzero)).trans (Nat.le_add_right n _), ?_⟩
    have up : 2 ^ (n.log2 - 52) ∣ 2 ^ (n.log2 + 1) := Nat.pow_dvd_pow 2 (by omega)
    have next : 2 ^ (n.log2 - 52) ≤ 2 ^ (n.log2 + 1) - n :=
      Nat.le_of_dvd (Nat.sub_pos_of_lt Nat.lt_log2_self) (Nat.dvd_sub up few)
    omega

/-- A number whose significant bits are few enough is what anything above it by less than half a step is
rounded to, and by half a step if its steps are even in number. -/
theorem roundUnits_mul_add (positive : 0 < den) {n r : Nat} (few : 2 ^ (n.log2 - 52) ∣ n)
    (rest : 2 * r < den * 2 ^ (n.log2 - 52) ∨
      2 * r = den * 2 ^ (n.log2 - 52) ∧ n / 2 ^ (n.log2 - 52) % 2 = 0) :
    roundUnits (n * den + r) den = n := by
  have wide : 0 < den * 2 ^ (n.log2 - 52) := Nat.mul_pos positive (Nat.two_pow_pos _)
  have step := stepAt_mul_add positive few (r := r) (by omega)
  have value : n * den = n / 2 ^ (n.log2 - 52) * (den * 2 ^ (n.log2 - 52)) := by
    rw [Nat.mul_comm den, ← Nat.mul_assoc, Nat.div_mul_cancel few]
  rw [roundUnits_eq, step, value, roundDiv_mul_add wide rest, Nat.div_mul_cancel few]

/-- What is taken off a whole number of steps, less than one of them, leaves a quotient on the grid of that step. -/
theorem stepAt_mul_sub {den k i r : Nat} (positive : 0 < den) (some : 0 < k) (high : k ≤ 2 ^ (53 : Nat))
    (low : i = 0 ∨ 2 ^ (52 : Nat) < k) (rest : r < den * 2 ^ i) (more : 0 < r) :
    stepAt (k * 2 ^ i * den - r) den = 2 ^ i := by
  obtain ⟨j, rfl⟩ : ∃ j, k = j + 1 := ⟨k - 1, by omega⟩
  -- The quotient keeps all whole steps but one, and is below the last.
  have least : j * 2 ^ i ≤ ((j + 1) * 2 ^ i * den - r) / den := by
    rw [Nat.le_div_iff_mul_le positive]
    have : (j + 1) * 2 ^ i * den = j * 2 ^ i * den + den * 2 ^ i := by ring
    omega
  have most : ((j + 1) * 2 ^ i * den - r) / den < (j + 1) * 2 ^ i := by
    rw [Nat.div_lt_iff_lt_mul positive]
    have : 0 < (j + 1) * 2 ^ i * den := Nat.mul_pos (Nat.mul_pos some (Nat.two_pow_pos i)) positive
    omega
  have below : ((j + 1) * 2 ^ i * den - r) / den < 2 ^ (53 + i) := by
    rw [Nat.pow_add]
    exact most.trans_le (Nat.mul_le_mul_right _ high)
  rw [stepAt]
  congr 1
  rcases low with rfl | large
  · rcases Nat.eq_zero_or_pos (((j + 1) * 2 ^ 0 * den - r) / den) with none | some'
    · rw [none]
      rfl
    · have := (Nat.log2_lt (Nat.ne_of_gt some')).2 below
      omega
  · have reach : 2 ^ (52 + i) ≤ ((j + 1) * 2 ^ i * den - r) / den := by
      rw [Nat.pow_add]
      exact (Nat.mul_le_mul_right _ (by omega)).trans least
    have nonzero := Nat.ne_of_gt ((Nat.two_pow_pos (52 + i)).trans_le reach)
    have := (Nat.le_log2 nonzero).2 reach
    have := (Nat.log2_lt nonzero).2 below
    omega

/-- A whole number of steps is what anything below it by less than half a step is rounded to, and by half a step
if it is even. A power of two ends the finer grid below it. -/
theorem roundUnits_mul_sub {den k i r : Nat} (positive : 0 < den) (some : 0 < k) (high : k ≤ 2 ^ (53 : Nat))
    (low : i = 0 ∨ 2 ^ (52 : Nat) < k) (rest : 2 * r < den * 2 ^ i ∨ 2 * r = den * 2 ^ i ∧ k % 2 = 0)
    (more : 0 < r) : roundUnits (k * 2 ^ i * den - r) den = k * 2 ^ i := by
  have wide : 0 < den * 2 ^ i := Nat.mul_pos positive (Nat.two_pow_pos i)
  have value : k * 2 ^ i * den = k * (den * 2 ^ i) := by ring
  have step := stepAt_mul_sub positive some high low (by omega) more
  rw [roundUnits_eq, step, value, roundDiv_mul_sub some wide rest]

/-- Rounding keeps a number whose significant bits are few enough. -/
theorem roundUnits_mul (positive : 0 < den) {n : Nat} (few : 2 ^ (n.log2 - 52) ∣ n) :
    roundUnits (n * den) den = n :=
  roundUnits_mul_add (r := 0) positive few (.inl (Nat.mul_pos positive (Nat.two_pow_pos _)))

/-- A quotient of less than 2⁵³ steps is rounded to at most 2⁵³ of them. -/
theorem roundUnits_le_two_pow {k : Nat} (positive : 0 < den) (h : num < 2 ^ (53 + k) * den) :
    roundUnits num den ≤ 2 ^ (53 + k) := by
  obtain ⟨j, hj⟩ : ∃ j, stepAt num den = 2 ^ j := ⟨_, rfl⟩
  have fine : j ≤ k := by
    have := stepAt_le positive h
    rw [hj] at this
    exact (Nat.pow_le_pow_iff_right Nat.one_lt_two).1 this
  have wide : 2 ^ (53 + k) = 2 ^ (53 + k - j) * 2 ^ j := by
    rw [← Nat.pow_add, Nat.sub_add_cancel (by omega)]
  rw [roundUnits_eq, hj, wide]
  refine Nat.mul_le_mul_right _ (roundDiv_le (Nat.mul_pos positive (Nat.two_pow_pos j)) ?_)
  calc num ≤ 2 ^ (53 + k) * den := h.le
    _ = 2 ^ (53 + k - j) * (den * 2 ^ j) := by rw [wide]; ring

/-- A quotient that falls short of 2⁵³ steps of a grid by more than half a step is rounded to less. -/
theorem roundUnits_lt_two_pow {k : Nat} (positive : 0 < den)
    (h : 2 * num < (2 ^ (54 : Nat) - 1) * 2 ^ k * den) : roundUnits num den < 2 ^ (53 + k) := by
  have whole : (2 ^ (54 : Nat) - 1) * 2 ^ k * den + 2 ^ k * den = 2 * (2 ^ (53 + k) * den) := by
    rw [← Nat.add_mul, ← Nat.succ_mul, Nat.pow_add, ← Nat.mul_assoc, ← Nat.mul_assoc]
  have fine : stepAt num den ≤ 2 ^ k := stepAt_le positive (by omega)
  have step := Nat.mul_le_mul_left den fine
  rw [Nat.mul_comm den (2 ^ k)] at step
  have near : 2 * (roundUnits num den * den) ≤ 2 * num + den * stepAt num den :=
    (roundUnits_near positive).1
  have less : roundUnits num den * den < 2 ^ (53 + k) * den := by omega
  exact Nat.lt_of_mul_lt_mul_right less

/-- A quotient of at least 2⁵³ steps of a grid is rounded to at least as many of them. -/
theorem two_pow_le_roundUnits {k : Nat} (positive : 0 < den) (h : 2 ^ (53 + k) * den ≤ num) :
    2 ^ (53 + k) ≤ roundUnits num den := by
  obtain ⟨j, hj⟩ : ∃ j, stepAt num den = 2 ^ j := ⟨_, rfl⟩
  have many : 2 ^ (53 + k) ≤ num / den := (Nat.le_div_iff_mul_le positive).2 h
  have nonzero : num / den ≠ 0 := Nat.ne_of_gt (Nat.lt_of_lt_of_le (Nat.two_pow_pos _) many)
  have low : 2 ^ (52 : Nat) * (den * stepAt num den) ≤ num := mul_stepAt_le positive <| by
    refine (Nat.mul_le_mul_right _ ?_).trans h
    exact Nat.pow_le_pow_right Nat.zero_lt_two (by omega)
  have base : 2 ^ (52 : Nat) ≤ num / (den * 2 ^ j) := by
    rw [Nat.le_div_iff_mul_le (Nat.mul_pos positive (Nat.two_pow_pos j)), ← hj]
    exact low
  have size : num / den < 2 ^ (53 + j) := by
    have log := Nat.lt_log2_self (n := num / den)
    have exponent : (num / den).log2 - 52 = j := Nat.pow_right_injective (le_refl 2) hj
    refine log.trans_le (Nat.pow_le_pow_right Nat.zero_lt_two ?_)
    omega
  -- The step there is coarser than the grid's, so that 2⁵² of them are 2⁵³ steps of the grid or more.
  have coarse : k < j := by
    have := many.trans_lt size
    rw [Nat.pow_lt_pow_iff_right Nat.one_lt_two] at this
    omega
  rw [roundUnits_eq, hj]
  calc 2 ^ (53 + k) ≤ 2 ^ (52 + j) := Nat.pow_le_pow_right Nat.zero_lt_two (by omega)
    _ = 2 ^ (52 : Nat) * 2 ^ j := Nat.pow_add ..
    _ ≤ roundDiv num (den * 2 ^ j) * 2 ^ j :=
      Nat.mul_le_mul_right _ (base.trans (div_le_roundDiv ..))

/-- Rounding to doubles keeps the order of quotients. -/
theorem roundUnits_mono (positive : 0 < den) (positive' : 0 < den')
    (h : num * den' ≤ num' * den) : roundUnits num den ≤ roundUnits num' den' := by
  have order := div_le_div_of_mul_le_mul positive positive' h
  obtain ⟨k, hk⟩ : ∃ k, (num / den).log2 - 52 = k := ⟨_, rfl⟩
  obtain ⟨k', hk'⟩ : ∃ k', (num' / den').log2 - 52 = k' := ⟨_, rfl⟩
  have size : num < 2 ^ (53 + k) * den := by
    rw [← Nat.div_lt_iff_lt_mul positive]
    exact Nat.lt_log2_self.trans_le (Nat.pow_le_pow_right Nat.zero_lt_two (by omega))
  rcases Nat.lt_or_ge num' (2 ^ (53 + k) * den') with near | far
  · -- Both lie on the same grid.
    have fine : k' ≤ k := by
      have := stepAt_le positive' near
      rw [stepAt, hk'] at this
      exact (Nat.pow_le_pow_iff_right Nat.one_lt_two).1 this
    have log : (num / den).log2 ≤ (num' / den').log2 := by
      rcases Nat.eq_zero_or_pos (num / den) with none | some
      · simp [none]
      · exact (Nat.le_log2 (by omega)).2 ((Nat.log2_self_le (by omega)).trans order)
    have same : k' = k := by omega
    rw [roundUnits_eq, roundUnits_eq, stepAt, stepAt, hk, hk', same]
    refine Nat.mul_le_mul_right _ (roundDiv_mono ?_ ?_ ?_)
    · exact Nat.mul_pos positive (Nat.two_pow_pos k)
    · exact Nat.mul_pos positive' (Nat.two_pow_pos k)
    · calc num * (den' * 2 ^ k) = num * den' * 2 ^ k := by ring
        _ ≤ num' * den * 2 ^ k := Nat.mul_le_mul_right _ h
        _ = num' * (den * 2 ^ k) := by ring
  · -- The larger one lies beyond the grid of the smaller one, whose upper end keeps them apart.
    exact (roundUnits_le_two_pow positive size).trans (two_pow_le_roundUnits positive' far)

/-- A factor of a power of two shifts the bits of a number. -/
theorem log2_mul_two_pow {n : Nat} (nonzero : n ≠ 0) (j : Nat) : (n * 2 ^ j).log2 = n.log2 + j := by
  have shifted : n * 2 ^ j ≠ 0 := Nat.mul_ne_zero nonzero (Nat.ne_of_gt (Nat.two_pow_pos j))
  rw [Nat.log2_eq_iff shifted, Nat.add_right_comm, Nat.pow_add, Nat.pow_add]
  exact ⟨Nat.mul_le_mul_right _ (Nat.log2_self_le nonzero),
    Nat.mul_lt_mul_of_pos_right Nat.lt_log2_self (Nat.two_pow_pos j)⟩

/-- At 2⁵³ steps of a grid and more, adding one of them is rounded away from a number of fours of them. -/
theorem roundUnits_succ_mul_two_pow {n : Nat} (even : 4 ∣ n) (large : 2 ^ (53 : Nat) ≤ n)
    (few : 2 ^ (n.log2 - 52) ∣ n) (j : Nat) : roundUnits ((n + 1) * 2 ^ j) 1 = n * 2 ^ j := by
  have nonzero : n ≠ 0 := by omega
  obtain ⟨e, he⟩ : ∃ e, n.log2 = 53 + e :=
    ⟨n.log2 - 53, (Nat.add_sub_of_le ((Nat.le_log2 nonzero).2 large)).symm⟩
  have log : (n * 2 ^ j).log2 - 52 = e + 1 + j := by
    rw [log2_mul_two_pow nonzero, he]
    omega
  rw [he, show 53 + e - 52 = e + 1 by omega] at few
  have shifted := Nat.mul_dvd_mul few (Nat.dvd_refl (2 ^ j))
  rw [← Nat.pow_add] at shifted
  have half := Nat.two_pow_pos j
  rw [Nat.add_mul, Nat.one_mul]
  have := roundUnits_mul_add Nat.one_pos (n := n * 2 ^ j) (r := 2 ^ j) (log ▸ shifted) (by
    rw [log, Nat.one_mul]
    rcases Nat.eq_zero_or_pos e with rfl | some
    · -- Here the one is half a step, and the tie goes to the even number of steps.
      right
      rw [Nat.pow_add, Nat.mul_div_mul_right _ _ half]
      omega
    · left
      calc 2 * 2 ^ j = 2 ^ (1 + j) := by rw [Nat.pow_add]
        _ < 2 ^ (e + 1 + j) := Nat.pow_lt_pow_right Nat.one_lt_two (by omega))
  rwa [Nat.mul_one] at this

end Binary64

end Admission
