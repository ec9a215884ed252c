import BcNode.Protos.Core

/-!
# Difficulty of the next block

`getDiff` and `getExpFactorDiff` of `mining/primitives`, over `Int` with the
truncating division of `bn.js`.

`getDiff` is a clamped linear rule.  From the two timestamps, the number of new
child blocks and the age of the newest child header it forms a step factor `x`,
never below `-99` (`stepFactor`), and then moves the previous difficulty by `x`
times its 815th part, never below the minimum.  The factor is named so that two
calls can be compared by comparing their factors: `getDiff_eq_iff` says exactly
when two calls with the same previous block agree.

`elapsedTime` is not monotone in the time of the current block: it falls where
the bonus sets in.  `elapsedTime_tdiv_mono` shows that its tenth is, which is all
the step factor sees, and `getDiff_antitone_bounded` that the difficulty can only
fall while time passes.
-/

namespace BcNode.Mining

open BcNode.Js BcNode.Protos

/-- `MINIMUM_DIFFICULTY` of the miner and `MINIMAL_DIFFICULTY` of the validator. -/
def MINIMUM_DIFFICULTY : Int := 290112262029012

/-- `getExpFactorDiff`. -/
def getExpFactorDiff (calculatedDifficulty : Int) (parentBlockHeight : Nat) : Int :=
  let periodCount := ((parentBlockHeight : Int) + 1).tdiv 66000000
  if periodCount > 2 then
    calculatedDifficulty + Int.pow 2 (periodCount - 2).toNat
  else calculatedDifficulty

/-- `elapsedTime` of `getDiff` after the stale cost and the bonus. -/
def elapsedTime (currentBlockTime previousBlockTime newBlockCount
    newestChildTimestamp : Nat) : Int :=
  let bigTargetTimeWindow : Int := 10
  let bigChildHeaderTime := (newestChildTimestamp : Int).tdiv 1000
  let bigChildHeaderTimeBound := bigChildHeaderTime + bigTargetTimeWindow * 2
  let staleCost :=
    ((currentBlockTime : Int) - bigChildHeaderTimeBound).tdiv bigTargetTimeWindow
  let elapsedTime := (currentBlockTime : Int) - previousBlockTime - staleCost
  let elapsedTimeBonus := elapsedTime + (elapsedTime - 7) * newBlockCount
  if elapsedTimeBonus > 0 then elapsedTimeBonus else elapsedTime

/-- The step factor `x` of `getDiff`, already clamped from below. -/
def stepFactor (currentBlockTime previousBlockTime newBlockCount
    newestChildTimestamp : Nat) : Int :=
  let x := 1 - (elapsedTime currentBlockTime previousBlockTime newBlockCount
    newestChildTimestamp).tdiv 10
  if x < -99 then -99 else x

/-- `getDiff`.  Of `newestChildHeader`, which may be a `Block`, a header or a
plain object, only the timestamp is read.  This is what it returns; that it throws
where a number is not `Safe` is said by `difficultyNumbers`. -/
def getDiff (pkg : Packages) (currentBlockTime previousBlockTime : Nat)
    (previousDifficulty : String) (minimalDifficulty : Int)
    (newBlockCount newestChildTimestamp : Nat) : Int :=
  let bigPreviousDifficulty := pkg.bn previousDifficulty
  let y := bigPreviousDifficulty.tdiv 815
  let x := stepFactor currentBlockTime previousBlockTime newBlockCount
    newestChildTimestamp * y + bigPreviousDifficulty
  if x < minimalDifficulty then minimalDifficulty else x

/-- The numbers `getDiff` and `getExpFactorDiff` hand to `new BN`.  The number of new
blocks, a length, is left out. -/
def difficultyNumbers (currentBlockTime previousBlockTime newestChildTimestamp
    parentBlockHeight : Nat) : Except JsError Unit := do
  let _ ← newBN previousBlockTime
  let _ ← newBN currentBlockTime
  let _ ← newBN newestChildTimestamp
  let _ ← newBN parentBlockHeight
  return ()

/-- No number of a difficulty is too large for `bn.js`. -/
structure SafeDifficulty (currentBlockTime previousBlockTime newestChildTimestamp
    parentBlockHeight : Nat) : Prop where
  current : Safe currentBlockTime
  previous : Safe previousBlockTime
  newest : Safe newestChildTimestamp
  height : Safe parentBlockHeight

theorem difficultyNumbers_ok {currentBlockTime previousBlockTime newestChildTimestamp
    parentBlockHeight : Nat} :
    difficultyNumbers currentBlockTime previousBlockTime newestChildTimestamp
        parentBlockHeight = .ok () ↔
      SafeDifficulty currentBlockTime previousBlockTime newestChildTimestamp
        parentBlockHeight := by
  constructor
  · intro h
    obtain ⟨_, hprevious, h⟩ := bind_ok.1 h
    obtain ⟨_, hcurrent, h⟩ := bind_ok.1 h
    obtain ⟨_, hnewest, h⟩ := bind_ok.1 h
    obtain ⟨_, hheight, -⟩ := bind_ok.1 h
    exact ⟨(newBN_ok.1 hcurrent).1, (newBN_ok.1 hprevious).1, (newBN_ok.1 hnewest).1,
      (newBN_ok.1 hheight).1⟩
  · rintro ⟨hcurrent, hprevious, hnewest, hheight⟩
    rw [difficultyNumbers, newBN_safe hcurrent, newBN_safe hprevious, newBN_safe hnewest,
      newBN_safe hheight]
    rfl

/-! ## When two calls agree -/

/-- The exponential factor shifts every difficulty of one height alike. -/
theorem getExpFactorDiff_inj (a b : Int) (height : Nat) :
    getExpFactorDiff a height = getExpFactorDiff b height ↔ a = b := by
  unfold getExpFactorDiff
  dsimp only
  split <;> omega

/-- Where the rule leaves the floor for the step factor `x`. -/
def AboveFloor (previousDifficulty minimalDifficulty x : Int) : Prop :=
  minimalDifficulty < x * previousDifficulty.tdiv 815 + previousDifficulty

instance (previousDifficulty minimalDifficulty x : Int) :
    Decidable (AboveFloor previousDifficulty minimalDifficulty x) :=
  inferInstanceAs (Decidable (_ < _))

/-- Two step factors move the same previous difficulty to the same place: they
are equal, or its 815th part is zero, or both end on the floor. -/
def SameStep (previousDifficulty minimalDifficulty x x' : Int) : Prop :=
  x = x' ∨ previousDifficulty.tdiv 815 = 0 ∨
    (¬ AboveFloor previousDifficulty minimalDifficulty x ∧
      ¬ AboveFloor previousDifficulty minimalDifficulty x')

instance (previousDifficulty minimalDifficulty x x' : Int) :
    Decidable (SameStep previousDifficulty minimalDifficulty x x') :=
  inferInstanceAs (Decidable (_ ∨ _))

/-- The clamped rule as a maximum. -/
theorem getDiff_eq_max (pkg : Packages) (currentBlockTime previousBlockTime : Nat)
    (previousDifficulty : String) (minimalDifficulty : Int)
    (newBlockCount newestChildTimestamp : Nat) :
    getDiff pkg currentBlockTime previousBlockTime previousDifficulty
        minimalDifficulty newBlockCount newestChildTimestamp =
      max minimalDifficulty
        (stepFactor currentBlockTime previousBlockTime newBlockCount
            newestChildTimestamp * (pkg.bn previousDifficulty).tdiv 815 +
          pkg.bn previousDifficulty) := by
  unfold getDiff
  dsimp only
  split <;> omega

private theorem max_affine_eq_iff (m x x' y d : Int) :
    max m (x * y + d) = max m (x' * y + d) ↔
      x = x' ∨ y = 0 ∨ (¬ m < x * y + d ∧ ¬ m < x' * y + d) := by
  constructor
  · intro h
    by_cases hfloor : ¬ m < x * y + d ∧ ¬ m < x' * y + d
    · exact Or.inr (Or.inr hfloor)
    · have hmul : x * y = x' * y := by omega
      by_cases hy : y = 0
      · exact Or.inr (Or.inl hy)
      · exact Or.inl (Int.eq_of_mul_eq_mul_right hy hmul)
  · rintro (rfl | rfl | ⟨hx, hx'⟩)
    · rfl
    · simp
    · omega

/-- Two difficulties computed over the same previous block are equal exactly
when their step factors are the same step. -/
theorem getDiff_eq_iff (pkg : Packages) (t p n c t' n' c' : Nat)
    (previousDifficulty : String) (minimalDifficulty : Int) :
    getDiff pkg t p previousDifficulty minimalDifficulty n c =
        getDiff pkg t' p previousDifficulty minimalDifficulty n' c' ↔
      SameStep (pkg.bn previousDifficulty) minimalDifficulty
        (stepFactor t p n c) (stepFactor t' p n' c') := by
  rw [getDiff_eq_max, getDiff_eq_max]
  exact max_affine_eq_iff _ _ _ _ _

/-! ## The rule as a function of the clock -/

/-- Truncating division in terms of the flooring one. -/
private theorem tdiv_cases (a k : Int) :
    (0 ≤ a ∧ a.tdiv k = a / k) ∨ (a < 0 ∧ a.tdiv k = -(-a / k)) := by
  rcases lt_or_ge a 0 with ha | ha
  · refine Or.inr ⟨ha, ?_⟩
    rw [← Int.tdiv_eq_ediv_of_nonneg (by omega : 0 ≤ -a), Int.neg_tdiv, Int.neg_neg]
  · exact Or.inl ⟨ha, Int.tdiv_eq_ediv_of_nonneg ha⟩

/-- Truncation keeps the order. -/
private theorem tdiv_ten_mono {a b : Int} (h : a ≤ b) : a.tdiv 10 ≤ b.tdiv 10 := by
  rcases tdiv_cases a 10 with ⟨_, ha⟩ | ⟨_, ha⟩ <;>
    rcases tdiv_cases b 10 with ⟨_, hb⟩ | ⟨_, hb⟩ <;>
    omega

/-- A tenth grows no faster than the number itself. -/
private theorem tdiv_ten_sub_le {a b : Int} (h : a ≤ b) :
    b.tdiv 10 - a.tdiv 10 ≤ b - a := by
  rcases tdiv_cases a 10 with ⟨_, ha⟩ | ⟨_, ha⟩ <;>
    rcases tdiv_cases b 10 with ⟨_, hb⟩ | ⟨_, hb⟩ <;>
    omega

/-- `elapsedTime` of `getDiff` after the stale cost and before the bonus. -/
def netElapsedTime (currentBlockTime previousBlockTime newestChildTimestamp : Nat) :
    Int :=
  (currentBlockTime : Int) - previousBlockTime -
    ((currentBlockTime : Int) - ((newestChildTimestamp : Int).tdiv 1000 + 10 * 2)).tdiv 10

/-- `elapsedTimeBonus` of `getDiff`. -/
def bonus (elapsedTime : Int) (newBlockCount : Nat) : Int :=
  elapsedTime + (elapsedTime - 7) * newBlockCount

theorem elapsedTime_eq (t p n c : Nat) :
    elapsedTime t p n c =
      if bonus (netElapsedTime t p c) n > 0 then bonus (netElapsedTime t p c) n
      else netElapsedTime t p c := rfl

/-- The stale cost takes back at most one second in ten. -/
theorem netElapsedTime_mono {t t' : Nat} (p c : Nat) (h : t ≤ t') :
    netElapsedTime t p c ≤ netElapsedTime t' p c := by
  have hcost := @tdiv_ten_sub_le
    ((t : Int) - ((c : Int).tdiv 1000 + 10 * 2))
    ((t' : Int) - ((c : Int).tdiv 1000 + 10 * 2)) (by omega)
  unfold netElapsedTime
  omega

theorem bonus_mono {e e' : Int} (n : Nat) (h : e ≤ e') : bonus e n ≤ bonus e' n := by
  have hmul : (e - 7) * (n : Int) ≤ (e' - 7) * n :=
    Int.mul_le_mul_of_nonneg_right (by omega) (Int.natCast_nonneg n)
  unfold bonus
  omega

/-- Without a bonus less than seven seconds have passed. -/
theorem lt_seven_of_bonus_nonpos {e : Int} {n : Nat} (h : bonus e n ≤ 0) : e < 7 := by
  rcases lt_or_ge e 7 with he | he
  · exact he
  · have hmul : 0 ≤ (e - 7) * (n : Int) :=
      Int.mul_nonneg (by omega) (Int.natCast_nonneg n)
    unfold bonus at h
    omega

/-- The tenth that the step factor is formed from never decreases, although
`elapsedTime` itself may fall where the bonus sets in: before that point its
tenth is zero or less, after it zero or more. -/
theorem elapsedTime_tdiv_mono {t t' : Nat} (p n c : Nat) (h : t ≤ t') :
    (elapsedTime t p n c).tdiv 10 ≤ (elapsedTime t' p n c).tdiv 10 := by
  have hnet := netElapsedTime_mono p c h
  have hbonus := bonus_mono n hnet
  rw [elapsedTime_eq, elapsedTime_eq]
  split <;> split
  · exact tdiv_ten_mono hbonus
  · omega
  · next hlow _ =>
      have hseven := lt_seven_of_bonus_nonpos (Int.not_lt.1 hlow)
      calc (netElapsedTime t p c).tdiv 10
          ≤ (6 : Int).tdiv 10 := tdiv_ten_mono (by omega)
        _ ≤ (bonus (netElapsedTime t' p c) n).tdiv 10 :=
            Int.tdiv_nonneg (by omega) (by omega)
  · exact tdiv_ten_mono hnet

theorem stepFactor_antitone {t t' : Nat} (p n c : Nat) (h : t ≤ t') :
    stepFactor t' p n c ≤ stepFactor t p n c := by
  have hmono := elapsedTime_tdiv_mono p n c h
  unfold stepFactor
  dsimp only
  split <;> split <;> omega

theorem neg_le_stepFactor (t p n c : Nat) : -99 ≤ stepFactor t p n c := by
  unfold stepFactor
  dsimp only
  split <;> omega

/-- **The difficulty falls with time, and not without bound.**  Over one
previous block of non-negative difficulty `getDiff` never increases with the
time of the current block, and stays at or above both the minimum and the
previous difficulty less 99 of its 815th parts. -/
theorem getDiff_antitone_bounded (pkg : Packages) (previousBlockTime : Nat)
    (previousDifficulty : String) (minimalDifficulty : Int)
    (newBlockCount newestChildTimestamp : Nat)
    (hprev : 0 ≤ pkg.bn previousDifficulty) :
    (∀ currentBlockTime laterTime, currentBlockTime ≤ laterTime →
      getDiff pkg laterTime previousBlockTime previousDifficulty minimalDifficulty
          newBlockCount newestChildTimestamp ≤
        getDiff pkg currentBlockTime previousBlockTime previousDifficulty
          minimalDifficulty newBlockCount newestChildTimestamp) ∧
    ∀ currentBlockTime,
      max minimalDifficulty (pkg.bn previousDifficulty -
          99 * (pkg.bn previousDifficulty).tdiv 815) ≤
        getDiff pkg currentBlockTime previousBlockTime previousDifficulty
          minimalDifficulty newBlockCount newestChildTimestamp := by
  have hpart : 0 ≤ (pkg.bn previousDifficulty).tdiv 815 :=
    Int.tdiv_nonneg hprev (by omega)
  constructor
  · intro t t' h
    have hfactor := Int.mul_le_mul_of_nonneg_right
      (stepFactor_antitone previousBlockTime newBlockCount newestChildTimestamp h) hpart
    rw [getDiff_eq_max, getDiff_eq_max]
    omega
  · intro t
    have hfactor := Int.mul_le_mul_of_nonneg_right
      (neg_le_stepFactor t previousBlockTime newBlockCount newestChildTimestamp) hpart
    rw [getDiff_eq_max]
    omega

/-- A previous difficulty of a thousand 815th parts. -/
theorem getDiff_antitone_bounded_sample :
    (∀ currentBlockTime laterTime, currentBlockTime ≤ laterTime →
      getDiff ⟨id, fun _ _ => 0, Int.tdiv, fun _ => 0, fun _ => false⟩ laterTime
          1000 (toString (815000 : Int)) 300000 3 990000 ≤
        getDiff ⟨id, fun _ _ => 0, Int.tdiv, fun _ => 0, fun _ => false⟩
          currentBlockTime 1000 (toString (815000 : Int)) 300000 3 990000) ∧
    ∀ currentBlockTime,
      max 300000 (Packages.bn ⟨id, fun _ _ => 0, Int.tdiv, fun _ => 0, fun _ => false⟩
          (toString (815000 : Int)) -
          99 * (Packages.bn ⟨id, fun _ _ => 0, Int.tdiv, fun _ => 0, fun _ => false⟩
            (toString (815000 : Int))).tdiv 815) ≤
        getDiff ⟨id, fun _ _ => 0, Int.tdiv, fun _ => 0, fun _ => false⟩
          currentBlockTime 1000 (toString (815000 : Int)) 300000 3 990000 :=
  getDiff_antitone_bounded _ 1000 (toString (815000 : Int)) 300000 3 990000
    (by rw [Packages.bn_toString]; decide)

end BcNode.Mining
