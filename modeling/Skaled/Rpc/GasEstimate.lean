import Mathlib.Order.Bounds.Basic

/-! # Estimating the gas of a call

`ClientBase::estimateGas` runs a call with as much gas as it may have and tries the gas
that was used. Refunds make the gas used smaller than the gas needed, so this may fail.
Then it searches between the base gas and the upper bound. What a run does with a gas
limit is a parameter here. The upper bound was cut to `c_maxGasEstimate` and to the gas
limit of the pending block before, so sums do not leave 64 bits.
-/

namespace Skaled.GasEstimate

/-- `estimateGasStep`: what a run with a gas limit gives. -/
structure StepResult where
  success : Bool
  gasUsed : Nat
  deriving DecidableEq, Repr

variable (step : Nat → StepResult)

/-- The binary search, for at most some rounds. -/
def search : (rounds lowerBound upperBound : Nat) → Option Nat
  | rounds, lowerBound, upperBound =>
    if lowerBound + 1 < upperBound then
      match rounds with
      | 0 => none
      | rounds + 1 =>
        let middle := (lowerBound + upperBound) / 2
        if (step middle).success then search rounds lowerBound middle
        else search rounds middle upperBound
    else some upperBound

/-- `estimateGas`, if the search needs at most some rounds. -/
def estimateGas (rounds lowerBound upperBound : Nat) : Option Nat :=
  if (step upperBound).success then
    let gasUsed := max (step upperBound).gasUsed lowerBound
    if (step gasUsed).success then some gasUsed else search step rounds lowerBound upperBound
  else some upperBound

variable {step}

/-- More gas never makes a run fail. -/
def Monotone (step : Nat → StepResult) : Prop :=
  ∀ gas gas', gas ≤ gas' → (step gas).success → (step gas').success

/-- An amount that is found: it succeeds, and with a monotone step no smaller one does. -/
structure Found (step : Nat → StepResult) (lowerBound upperBound gas : Nat) : Prop where
  lower : lowerBound ≤ gas
  upper : gas ≤ upperBound
  success : (step gas).success
  least : Monotone step → ¬(step lowerBound).success →
    IsLeast {gas | lowerBound ≤ gas ∧ (step gas).success} gas

variable {lowerBound upperBound : Nat}

/-- The upper end always succeeds, and the lower end fails or was never tried. -/
theorem search_found (hle : lowerBound ≤ upperBound) (hsuccess : (step upperBound).success) :
    ∃ gas, (∀ rounds, upperBound - lowerBound ≤ rounds →
        search step rounds lowerBound upperBound = some gas) ∧
      Found step lowerBound upperBound gas := by
  induction hwidth : upperBound - lowerBound using Nat.strong_induction_on
    generalizing lowerBound upperBound with
  | h width ih =>
    by_cases hwide : lowerBound + 1 < upperBound
    · have hlow : lowerBound < (lowerBound + upperBound) / 2 := by omega
      have hhigh : (lowerBound + upperBound) / 2 < upperBound := by omega
      -- one round, whichever half the search goes on with
      have hround : ∀ lower upper gas, upper - lower < width →
          (∀ rounds, search step (rounds + 1) lowerBound upperBound =
            search step rounds lower upper) →
          (∀ rounds, upper - lower ≤ rounds → search step rounds lower upper = some gas) →
          ∀ rounds, width ≤ rounds → search step rounds lowerBound upperBound = some gas := by
        intro lower upper gas hless hnext hfound rounds hrounds
        cases rounds with
        | zero => omega
        | succ rounds => rw [hnext, hfound rounds (by omega)]
      by_cases hmiddle : (step ((lowerBound + upperBound) / 2)).success
      · obtain ⟨gas, hfound, hgas⟩ := ih _ (by omega) hlow.le hmiddle rfl
        refine ⟨gas, hround _ _ gas (by omega) (fun rounds => ?_) hfound,
          hgas.lower, hgas.upper.trans hhigh.le, hgas.success, hgas.least⟩
        rw [search, if_pos hwide, if_pos hmiddle]
      · obtain ⟨gas, hfound, hgas⟩ := ih _ (by omega) hhigh.le hsuccess rfl
        refine ⟨gas, hround _ _ gas (by omega) (fun rounds => ?_) hfound,
          hlow.le.trans hgas.lower, hgas.upper, hgas.success, fun hmono _ => ?_⟩
        · rw [search, if_pos hwide, if_neg hmiddle]
        · refine ⟨⟨hlow.le.trans hgas.lower, hgas.success⟩, fun gas' hgas' => ?_⟩
          refine (hgas.least hmono hmiddle).2 ⟨?_, hgas'.2⟩
          exact le_of_not_gt fun hlt => hmiddle (hmono gas' _ hlt.le hgas'.2)
    · refine ⟨upperBound, fun rounds _ => by unfold search; exact if_neg hwide, hle, le_rfl,
        hsuccess, fun _ hfail => ⟨⟨hle, hsuccess⟩, fun gas hgas => ?_⟩⟩
      have hne : gas ≠ lowerBound := fun heq => hfail (heq ▸ hgas.2)
      have := hgas.1
      omega

/-- Whatever runs do, the search ends with an amount in the bounds that is enough. If
more gas never hurts, it is the gas used at the upper bound, or no smaller amount from
the base gas on is enough. -/
theorem estimateGas_sufficient (hle : lowerBound ≤ upperBound)
    (hsuccess : (step upperBound).success) (hused : (step upperBound).gasUsed ≤ upperBound) :
    ∃ gas, (∀ rounds, upperBound - lowerBound ≤ rounds →
        estimateGas step rounds lowerBound upperBound = some gas) ∧
      lowerBound ≤ gas ∧ gas ≤ upperBound ∧ (step gas).success ∧
      (Monotone step → gas = (step upperBound).gasUsed ∨
        IsLeast {gas | lowerBound ≤ gas ∧ (step gas).success} gas) := by
  unfold estimateGas
  simp only [if_pos hsuccess]
  by_cases htry : (step (max (step upperBound).gasUsed lowerBound)).success
  · refine ⟨_, fun rounds _ => if_pos htry, le_max_right _ _, max_le hused hle, htry, fun _ => ?_⟩
    rcases le_total lowerBound (step upperBound).gasUsed with husedLe | hbaseLe
    · exact .inl (max_eq_left husedLe)
    · rw [max_eq_right hbaseLe] at htry ⊢
      exact .inr ⟨⟨le_rfl, htry⟩, fun gas hgas => hgas.1⟩
  · obtain ⟨gas, hfound, hgas⟩ := search_found hle hsuccess
    refine ⟨gas, fun rounds hrounds => (if_neg htry).trans (hfound rounds hrounds),
      hgas.lower, hgas.upper, hgas.success, fun hmono => .inr (hgas.least hmono fun hbase => ?_)⟩
    exact htry (hmono lowerBound _ (le_max_right _ _) hbase)

/-- Needs 5 gas and gets 3 of it back. -/
def refundingStep (gas : Nat) : StepResult := ⟨5 ≤ gas, 2⟩

theorem estimateGas_sufficient_sample :
    ∃ gas, (∀ rounds, 8 ≤ rounds → estimateGas refundingStep rounds 0 8 = some gas) ∧ gas ≤ 8 := by
  obtain ⟨gas, hfound, -, hupper, -⟩ :=
    @estimateGas_sufficient refundingStep 0 8 (Nat.zero_le 8) rfl (by decide)
  exact ⟨gas, hfound, hupper⟩

example : estimateGas refundingStep 8 0 8 = some 5 := by decide

end Skaled.GasEstimate
