import Arki.Money.Fair

/-! Two parts by the largest rest: the first is its exact share rounded to the nearest, and up on a tie. -/

set_option autoImplicit false
set_option linter.dupNamespace false

namespace Arki.Money

variable {p q r s w t : Nat}

/-- The first of two parts of `p` units, by the weight `r` of the total `t`. -/
def firstOfTwo (p r t : Nat) : Int := ⌊(p : ℚ) * r / t + 1 / 2⌋

theorem proportional_two (r w : Nat) : Proportional [r, w] [(r : ℚ), w] :=
  ⟨rfl, 1, one_pos, fun i => by
    match i with
    | 0 => simp
    | 1 => simp
    | i + 2 => simp⟩

theorem firstOfTwo_le (within : r ≤ t) (positive : 0 < t) : firstOfTwo p r t ≤ p := by
  have cast : (0 : ℚ) < t := by exact_mod_cast positive
  have less : (p : ℚ) * r / t ≤ p := by
    rw [div_le_iff₀ cast]
    exact mul_le_mul_of_nonneg_left (by exact_mod_cast within) (by positivity)
  have below : firstOfTwo p r t < p + 1 := by
    rw [firstOfTwo, Int.floor_lt]
    push_cast
    linarith
  omega

theorem firstOfTwo_nonneg (p r t : Nat) : 0 ≤ firstOfTwo p r t := Int.floor_nonneg.mpr (by positivity)

theorem firstOfTwo_mono (rises : p ≤ q) (later : r ≤ s) : firstOfTwo p r t ≤ firstOfTwo q s t := by
  apply Int.floor_mono
  gcongr

theorem firstOfTwo_none (p t : Nat) : firstOfTwo p 0 t = 0 := by
  rw [firstOfTwo, Nat.cast_zero, mul_zero, zero_div, Int.floor_eq_zero_iff]
  norm_num

theorem firstOfTwo_all (positive : 0 < t) : firstOfTwo p t t = p := by
  have cast : (t : ℚ) ≠ 0 := by exact_mod_cast positive.ne'
  rw [firstOfTwo, mul_div_cancel_right₀ _ cast, Int.floor_natCast_add]
  norm_num

theorem nearest_of_fair {a b : Int} {x y : ℚ} (whole : x + y = (a + b : Int))
    (first : a = ⌊x⌋ ∨ a = ⌊x⌋ + 1) (second : b = ⌊y⌋ ∨ b = ⌊y⌋ + 1) (near : |(a : ℚ) - x| < 1)
    (firstGets : a = ⌊x⌋ + 1 → b ≠ ⌊y⌋ + 1 → Int.fract y ≤ Int.fract x)
    (secondGets : b = ⌊y⌋ + 1 → a ≠ ⌊x⌋ + 1 → Int.fract x < Int.fract y) : a = ⌊x + 1 / 2⌋ := by
  rw [eq_comm, Int.floor_eq_iff]
  have lowX := Int.floor_le x
  have highX := Int.lt_floor_add_one x
  have lowY := Int.floor_le y
  have highY := Int.lt_floor_add_one y
  unfold Int.fract at firstGets secondGets
  push_cast at whole
  rcases first with kept | topped
  · have castA : (a : ℚ) = ⌊x⌋ := by exact_mod_cast kept
    refine ⟨by linarith, ?_⟩
    rcases second with keptB | toppedB
    · have castB : (b : ℚ) = ⌊y⌋ := by exact_mod_cast keptB
      linarith
    · have castB : (b : ℚ) = ⌊y⌋ + 1 := by exact_mod_cast toppedB
      have less := secondGets toppedB (by omega)
      linarith
  · have castA : (a : ℚ) = ⌊x⌋ + 1 := by exact_mod_cast topped
    have some_ := (abs_lt.mp near).2
    have notTopped : b ≠ ⌊y⌋ + 1 := by
      intro toppedB
      have castB : (b : ℚ) = ⌊y⌋ + 1 := by exact_mod_cast toppedB
      linarith
    have castB : (b : ℚ) = ⌊y⌋ := by exact_mod_cast second.resolve_right notTopped
    have more := firstGets topped notTopped
    exact ⟨by linarith, by linarith⟩

theorem partsOf_pair (positive : 0 < r + w) :
    partsOf [r, w] p .largest = [firstOfTwo p r (r + w), p - firstOfTwo p r (r + w)] := by
  have fair : Fair .largest p [(r : ℚ), w] (partsOf [r, w] p .largest) := partsOf_fair (proportional_two r w) (by simpa using positive)
  obtain ⟨a, b, parts⟩ : ∃ a b, partsOf [r, w] p .largest = [a, b] := ⟨_, _, rfl⟩
  rw [parts] at fair ⊢
  have isPos (part : Int) (member : part ∈ [a, b]) : (part.natAbs : Int) = part := by
    rcases fair.sign part member with none_ | same
    · omega
    · rcases lt_or_ge part 0 with below | above
      · rw [Int.sign_eq_neg_one_of_neg below] at same
        have sign := Int.sign_nonneg_iff.mpr (Int.natCast_nonneg p)
        omega
      · omega
  have nonnegA := isPos a (by simp)
  have nonnegB := isPos b (by simp)
  have cast : (0 : ℚ) < r + w := by exact_mod_cast positive
  have sum : a + b = p := by simpa using fair.sum
  have shareA : exactShare p [(r : ℚ), w] 0 = p * r / (r + w) := by simp [exactShare]
  have shareB : exactShare p [(r : ℚ), w] 1 = p * w / (r + w) := by simp [exactShare]
  have floorA := fair.floor 0 (by decide : 0 < 2)
  have floorB := fair.floor 1 (by decide : 1 < 2)
  have near := fair.nearer rfl 0 (by decide : 0 < 2)
  have firstGets := fair.largest rfl 0 (by decide : 0 < 2) 1 (by decide : 1 < 2)
  have secondGets := fair.largest rfl 1 (by decide : 1 < 2) 0 (by decide : 0 < 2)
  simp only [ToppedUp, Int.cast_natCast, Nat.abs_cast, List.getD_cons_zero, List.getD_cons_succ, nonnegA, nonnegB, shareA,
    shareB] at floorA floorB near firstGets secondGets
  have first : a = firstOfTwo p r (r + w) := by
    rw [firstOfTwo, Nat.cast_add]
    refine nearest_of_fair ?_ floorA floorB near (fun topped apart => ?_) fun topped apart => ?_
    · rw [sum, ← add_div, ← mul_add, mul_div_cancel_right₀ _ cast.ne', Int.cast_natCast]
    · rcases firstGets topped apart with less | same
      · exact less.le
      · exact same.1.ge
    · rcases secondGets topped apart with less | same
      · exact less
      · omega
  rw [← first, ← sum, add_sub_cancel_left]

theorem safe_mul_fits {a b : Nat} (safeA : IsSafe a) (safeB : IsSafe b) : Fits (a * b : Nat) := by
  have small : a * b < 16 ^ 27 := by
    unfold IsSafe maxSafe at safeA safeB
    calc a * b ≤ 2 ^ 53 * 2 ^ 53 := Nat.mul_le_mul (by omega) (by omega)
      _ < 16 ^ 27 := by norm_num
  have few : hexDigits (a * b : Nat) ≤ 27 := (hexDigits_le (by decide)).mpr (by rwa [Int.natAbs_natCast])
  unfold Fits maxHexDigits
  omega

theorem safe_fits {n : Int} (safe : IsSafe n) : Fits n := by
  have few := safe.hexDigits
  unfold Fits maxHexDigits
  omega

theorem parseRatio_whole (safe : IsSafe r) : parseRatio (.number (.whole r)) = .ok ⟨canon r, 0⟩ := by
  have reads : Math.isSafeInteger r = true := by
    unfold IsSafe maxSafe at safe
    rw [Math.isSafeInteger, decide_eq_true_eq]
    omega
  rw [parseRatio, parseNumber, if_pos reads, canon_safe safe]
  rfl

theorem weightOf_whole (r : Nat) : weightOf 0 ⟨canon r, 0⟩ = r := by
  rw [weightOf, canon_big_value, Nat.sub_zero, pow_zero, mul_one, Int.toNat_natCast]

theorem weightsOf_pair (r w : Nat) : weightsOf [⟨canon r, 0⟩, ⟨canon w, 0⟩] = [r, w] := by
  have common : commonOf [⟨canon r, 0⟩, ⟨canon w, 0⟩] = 0 := rfl
  rw [weightsOf, common, List.map_cons, List.map_cons, List.map_nil, weightOf_whole, weightOf_whole]

/-- A safe amount that is not negative, by two safe weights that are not both zero. -/
theorem allocate_pair {scale : Nat} {currency : Currency} (safeP : IsSafe p) (safe : IsSafe (r + w : Nat)) (positive : 0 < r + w) :
    Money.allocate ⟨canon p, scale, currency⟩ [.number (.whole r), .number (.whole w)] none =
      .ok [⟨canon (firstOfTwo p r (r + w)), scale, currency⟩, ⟨canon (p - firstOfTwo p r (r + w)), scale, currency⟩] := by
  have safeR : IsSafe r := by
    unfold IsSafe at safe ⊢
    omega
  have safeW : IsSafe w := by
    unfold IsSafe at safe ⊢
    omega
  have isRead : List.Forall₂ (fun ratio one => parseRatio ratio = .ok one) [.number (.whole r), .number (.whole w)]
      [⟨canon r, 0⟩, ⟨canon w, 0⟩] :=
    .cons (parseRatio_whole safeR) (.cons (parseRatio_whole safeW) .nil)
  have nonneg : ∀ one ∈ [(⟨canon r, 0⟩ : Parsed), ⟨canon w, 0⟩], 0 ≤ one.value := by simp [Parsed.value]
  have within : WithinDigits p (weightsOf [⟨canon r, 0⟩, ⟨canon w, 0⟩]) := by
    rw [weightsOf_pair]
    refine ⟨safe_fits safeP, ?_, ?_⟩
    · rw [List.sum_cons, List.sum_singleton]
      exact safe_fits safe
    · intro weight member
      rw [← Nat.cast_mul, Int.natAbs_natCast]
      rcases List.mem_cons.mp member with rfl | last
      · exact safe_mul_fits safeP safeR
      · rw [List.mem_singleton.mp last]
        exact safe_mul_fits safeP safeW
  have few : 2 ≤ maxParts := by
    unfold maxParts
    omega
  have allocated := @allocate_eq p _ _ scale currency isRead nonneg (by rw [weightsOf_pair]; simpa using positive) few within none
  rw [weightsOf_pair, Option.getD_none, partsOf_pair positive] at allocated
  exact allocated

end Arki.Money
