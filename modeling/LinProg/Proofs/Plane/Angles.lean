import LinProg.Proofs.Plane.HalfPlane
import LinProg.Proofs.Scalar.Rational
import Mathlib.Analysis.SpecialFunctions.Complex.Arg

/-!
# Directions by their polar angle

Polar angles lie above minus a half turn and not above a half turn. The directions of the lower
half-plane, to which the one straight to the right belongs, come before those of the upper one,
and within a half-plane the cross product tells which of two comes first. This is all that is
assumed of angles. It is true of the argument of complex numbers, and of the rational angles.
-/
namespace LinProg
variable {K : Type} [Field K]

namespace Point

/-- The cross product, which is positive if the second direction points to the left of the
first. -/
def cross (d e : Point K) : K := d.x * e.y - d.y * e.x

theorem cross_self (d : Point K) : d.cross d = 0 := sub_eq_zero.mpr (mul_comm _ _)

theorem cross_swap (d e : Point K) : e.cross d = -d.cross e := by
  simp only [cross]
  ring

variable {d e f : Point K}

theorem cross_reverse (d e : Point K) : d.reverse.cross e.reverse = d.cross e := by
  simp only [cross, reverse]
  ring

variable [LinearOrder K]

/-- Any three directions of the plane depend on one another. -/
theorem cross_dependent (d e f : Point K) (l : Line K) :
    d.cross e * l.valueAt f + e.cross f * l.valueAt d + f.cross d * l.valueAt e = 0 := by
  simp only [cross, Line.valueAt]
  ring

/-- The polar angle is positive. -/
def Upper (d : Point K) : Prop := 0 < d.y ∨ d.y = 0 ∧ d.x < 0

/-- The polar angle of the first direction is less. -/
def AngleLt (d e : Point K) : Prop :=
  ¬ d.Upper ∧ e.Upper ∨ (d.Upper ↔ e.Upper) ∧ 0 < d.cross e

/-- Counterclockwise from the first direction, the second comes before the third. -/
def InTurn (d e f : Point K) : Prop :=
  d.AngleLt e ∧ e.AngleLt f ∨ e.AngleLt f ∧ f.AngleLt d ∨ f.AngleLt d ∧ d.AngleLt e

theorem not_upper_iff : ¬ d.Upper ↔ d.y < 0 ∨ d.y = 0 ∧ 0 ≤ d.x := by
  rw [Upper]
  rcases lt_trichotomy d.y 0 with h | h | h
  · simp [h, h.not_gt, h.ne]
  · simp [h]
  · simp [h, h.not_gt, h.ne']

theorem Upper.y_nonneg (h : d.Upper) : 0 ≤ d.y := h.elim le_of_lt fun h => h.1.ge

theorem ne_origin_iff : d ≠ origin ↔ d.x ≠ 0 ∨ d.y ≠ 0 := by
  obtain ⟨x, y⟩ := d
  simp [origin, -not_and, not_and_or]

theorem reverse_ne_origin (hd : d ≠ origin) : d.reverse ≠ origin := by
  rw [ne_origin_iff] at hd ⊢
  simpa [reverse] using hd

variable [IsStrictOrderedRing K]

theorem upper_reverse_iff (hd : d ≠ origin) : d.reverse.Upper ↔ ¬ d.Upper := by
  rw [not_upper_iff, Upper]
  simp only [reverse, neg_pos, neg_eq_zero, neg_lt_zero]
  refine or_congr_right (and_congr_right fun hy => ?_)
  have hx : d.x ≠ 0 := (ne_origin_iff.mp hd).resolve_right (not_not_intro hy)
  exact ⟨le_of_lt, fun h => h.lt_of_ne hx.symm⟩

/-- What comes after a direction that is a half turn or more ahead points to the right. -/
theorem cross_neg_of_upper (hd : d ≠ origin) (hlower : ¬ d.Upper) (he : e.Upper) (hf : f.Upper)
    (hef : 0 < e.cross f) (hde : d.cross e ≤ 0) : d.cross f < 0 := by
  have hdep : d.cross e * f.y + e.cross f * d.y + f.cross d * e.y = 0 := by
    simpa [Line.valueAt, Line.xAxis] using cross_dependent d e f Line.xAxis
  have hfy := hf.y_nonneg
  rcases he with hey | ⟨hey, hex⟩
  · rcases not_upper_iff.mp hlower with hdy | ⟨hdy, hdx⟩
    · have hfd : 0 < f.cross d * e.y := by
        linarith [mul_nonpos_of_nonpos_of_nonneg hde hfy, mul_neg_of_pos_of_neg hef hdy]
      rw [cross_swap]
      exact neg_neg_of_pos ((mul_pos_iff_of_pos_right hey).mp hfd)
    · have hx : 0 < d.x :=
        hdx.lt_of_ne ((ne_origin_iff.mp hd).resolve_right (not_not_intro hdy)).symm
      rw [cross, hdy, zero_mul, sub_zero] at hde
      exact absurd hde (mul_pos hx hey).not_ge
  · rw [cross, hey, zero_mul, sub_zero] at hef
    exact absurd hef (mul_nonpos_of_nonpos_of_nonneg hex.le hfy).not_gt

omit [IsStrictOrderedRing K] in
theorem AngleLt.of_cross_nonpos (h : d.AngleLt e) (hde : d.cross e ≤ 0) :
    ¬ d.Upper ∧ e.Upper :=
  h.resolve_right fun h => h.2.not_ge hde

/-- If a half turn or more leads from the first direction to the second, then the third, which comes
after both, points to the right of the first. -/
theorem InTurn.cross_neg (h : InTurn d e f) (hd : d ≠ origin) (he : e ≠ origin) (hf : f ≠ origin)
    (hde : d.cross e ≤ 0) : d.cross f < 0 := by
  rcases h with ⟨h, hef⟩ | ⟨hef, hfd⟩ | ⟨hfd, h⟩
  · obtain ⟨hlower, hupper⟩ := h.of_cross_nonpos hde
    rcases hef with ⟨hne, _⟩ | ⟨hiff, hpos⟩
    · exact absurd hupper hne
    · exact cross_neg_of_upper hd hlower hupper (hiff.mp hupper) hpos hde
  · rcases hfd with ⟨hflower, hdupper⟩ | ⟨_, hpos⟩
    · -- the same, seen from the other side
      rcases hef with ⟨_, hfupper⟩ | ⟨hiff, hpos⟩
      · exact absurd hfupper hflower
      · rw [← cross_reverse] at hde hpos ⊢
        refine cross_neg_of_upper (reverse_ne_origin hd) ?_ ?_ ?_ hpos hde
        · rwa [upper_reverse_iff hd, not_not]
        · exact (upper_reverse_iff he).mpr (mt hiff.mp hflower)
        · exact (upper_reverse_iff hf).mpr hflower
    · rw [cross_swap]
      exact neg_neg_of_pos hpos
  · obtain ⟨hlower, _⟩ := h.of_cross_nonpos hde
    rcases hfd with ⟨_, hdupper⟩ | ⟨_, hpos⟩
    · exact absurd hdupper hlower
    · rw [cross_swap]
      exact neg_neg_of_pos hpos

/-- Directions in the same half-plane whose cross product is zero differ in their length only. -/
theorem exists_eq_over (hd : d ≠ origin) (he : e ≠ origin) (hupper : d.Upper ↔ e.Upper)
    (hcross : d.cross e = 0) : ∃ t, 0 < t ∧ e = d.over t := by
  have hratio {a b : K} (ha : a ≠ 0) (hb : b ≠ 0) (h : a < 0 ↔ b < 0) : 0 < a / b := by
    rcases hb.lt_or_gt with hneg | hpos
    · exact div_pos_of_neg_of_neg (h.mpr hneg) hneg
    · exact div_pos (ha.lt_or_gt.resolve_left (mt h.mp hpos.not_gt)) hpos
  rw [ne_origin_iff] at hd he
  have hsame : d.y * e.x = d.x * e.y := (sub_eq_zero.mp hcross).symm
  by_cases hey : e.y = 0
  · have hex : e.x ≠ 0 := he.resolve_right (not_not_intro hey)
    have hdy : d.y = 0 := by
      rw [hey, mul_zero] at hsame
      exact (mul_eq_zero.mp hsame).resolve_right hex
    have hdx : d.x ≠ 0 := hd.resolve_right (not_not_intro hdy)
    refine ⟨d.x / e.x, hratio hdx hex (by simpa [Upper, hdy, hey] using hupper), ?_⟩
    rw [Point.over, div_div_cancel₀ hdx, hdy, zero_div, ← hey]
  · have hdy : d.y ≠ 0 := fun hdy => by
      rw [hdy, zero_mul, eq_comm, mul_eq_zero] at hsame
      exact hd.elim (fun hdx => hdx (hsame.resolve_right hey)) fun hne => hne hdy
    have hsign : d.y < 0 ↔ e.y < 0 := by
      have hlower := not_congr hupper
      simpa [not_upper_iff, hdy, hey] using hlower
    refine ⟨d.y / e.y, hratio hdy hey hsign, ?_⟩
    rw [Point.over, div_div_cancel₀ hdy, div_div_eq_mul_div, ← hsame, mul_div_cancel_left₀ _ hdy]

/-- Two directions differ in their angle or in their length only. -/
theorem angleLt_or_angleLt_or_over (hd : d ≠ origin) (he : e ≠ origin) :
    d.AngleLt e ∨ e.AngleLt d ∨ ∃ t, 0 < t ∧ e = d.over t := by
  by_cases hupper : d.Upper ↔ e.Upper
  · rcases lt_trichotomy (d.cross e) 0 with h | h | h
    · exact .inr (.inl (.inr ⟨hupper.symm, by rwa [cross_swap, neg_pos]⟩))
    · exact .inr (.inr (exists_eq_over hd he hupper h))
    · exact .inl (.inr ⟨hupper, h⟩)
  · by_cases hdu : d.Upper
    · exact .inr (.inl (.inl ⟨fun heu => hupper (iff_of_true hdu heu), hdu⟩))
    · exact .inl (.inl ⟨hdu, by_contra fun heu => hupper (iff_of_false hdu heu)⟩)

omit [IsStrictOrderedRing K] in
/-- Numbers order directions if their signs tell the half-planes apart and they follow the cross
product within each. -/
theorem angleLt_iff_lt {a b : K} (hd : d.Upper ↔ 0 < a) (he : e.Upper ↔ 0 < b)
    (hcross : (d.Upper ↔ e.Upper) → (0 < d.cross e ↔ a < b)) : d.AngleLt e ↔ a < b := by
  rw [AngleLt]
  by_cases hdu : d.Upper <;> by_cases heu : e.Upper
  · simp [hdu, heu, hcross (iff_of_true hdu heu)]
  · simp [hdu, heu, (le_of_not_gt (mt he.mpr heu)).trans (hd.mp hdu).le]
  · simp [hdu, heu, (le_of_not_gt (mt hd.mpr hdu)).trans_lt (he.mp heu)]
  · simp [hdu, heu, hcross (iff_of_false hdu heu)]

end Point

/-- Angles can be compared, and directions are ordered by theirs. Nothing is assumed of the angle
of a direction that is zero. -/
class Polar.Ordered (K : Type) [Field K] [LinearOrder K] [Polar K] : Prop where
  angleLe_trans : ∀ a b c : K, angleLe a b = true → angleLe b c = true → angleLe a c = true
  angleLe_total : ∀ a b : K, (angleLe a b || angleLe b a) = true
  angleLe_atan2_iff : ∀ {d e : Point K}, d ≠ Point.origin → e ≠ Point.origin →
    (angleLe (atan2 d.y d.x) (atan2 e.y e.x) = true ↔ ¬ e.AngleLt d)

theorem Polar.Ordered.of_lt [LinearOrder K] [Polar K]
    (hle : ∀ a b : K, angleLe a b = true ↔ a ≤ b)
    (hlt : ∀ {d e : Point K}, d ≠ Point.origin → e ≠ Point.origin →
      (d.AngleLt e ↔ atan2 d.y d.x < atan2 e.y e.x)) : Polar.Ordered K where
  angleLe_trans a b c := by simpa only [hle] using le_trans
  angleLe_total a b := by simpa [hle] using le_total a b
  angleLe_atan2_iff hd he := by rw [hle, hlt he hd, not_lt]

namespace Point

/-- The argument of a complex number is the polar angle of its vector. -/
noncomputable instance : Polar ℝ where
  hypot x y := √(x ^ 2 + y ^ 2)
  atan2 y x := Complex.arg ⟨x, y⟩
  angleLe a b := decide (a ≤ b)

theorem upper_iff_arg_pos (d : Point ℝ) : d.Upper ↔ 0 < Complex.arg ⟨d.x, d.y⟩ := by
  rw [← not_iff_not, not_upper_iff, not_lt, le_iff_lt_or_eq (b := (0 : ℝ)),
    Complex.arg_neg_iff, Complex.arg_eq_zero_iff, and_comm (a := d.y = 0)]

theorem norm_pos_of_ne_origin {d : Point ℝ} (hd : d ≠ origin) : 0 < ‖(⟨d.x, d.y⟩ : ℂ)‖ := by
  refine norm_pos_iff.mpr fun hzero => ?_
  obtain ⟨hx, hy⟩ := Complex.ext_iff.mp hzero
  exact (ne_origin_iff.mp hd).elim (absurd hx) (absurd hy)

theorem cross_eq_sin (d e : Point ℝ) : d.cross e = ‖(⟨d.x, d.y⟩ : ℂ)‖ * ‖(⟨e.x, e.y⟩ : ℂ)‖ *
    Real.sin (Complex.arg ⟨e.x, e.y⟩ - Complex.arg ⟨d.x, d.y⟩) := by
  rw [Real.sin_sub, cross]
  linear_combination
    -d.x * Complex.norm_mul_sin_arg ⟨e.x, e.y⟩ + d.y * Complex.norm_mul_cos_arg ⟨e.x, e.y⟩ -
      ‖(⟨e.x, e.y⟩ : ℂ)‖ * Real.sin (Complex.arg ⟨e.x, e.y⟩) *
        Complex.norm_mul_cos_arg ⟨d.x, d.y⟩ +
      ‖(⟨e.x, e.y⟩ : ℂ)‖ * Real.cos (Complex.arg ⟨e.x, e.y⟩) *
        Complex.norm_mul_sin_arg ⟨d.x, d.y⟩

/-- The difference of two arguments of the same sign is less than a half turn. -/
theorem sin_sub_arg_pos_iff {w z : ℂ} (h : 0 < w.arg ↔ 0 < z.arg) :
    0 < Real.sin (z.arg - w.arg) ↔ w.arg < z.arg := by
  have hbound : z.arg - w.arg < Real.pi ∧ -Real.pi < z.arg - w.arg := by
    rcases lt_or_ge 0 w.arg with hw | hw
    · have hz := h.mp hw
      constructor <;> linarith [w.arg_le_pi, z.arg_le_pi]
    · have hz := le_of_not_gt (mt h.mpr hw.not_gt)
      constructor <;> linarith [w.neg_pi_lt_arg, z.neg_pi_lt_arg]
  rw [← sub_pos (b := w.arg)]
  constructor
  · intro hsin
    by_contra hle
    exact hsin.not_ge (Real.sin_nonpos_of_nonpos_of_neg_pi_le (not_lt.mp hle) hbound.2.le)
  · exact fun hpos => Real.sin_pos_of_pos_of_lt_pi hpos hbound.1

/-- Directions of the plane are ordered by their argument. -/
theorem angleLt_iff_arg {d e : Point ℝ} (hd : d ≠ origin) (he : e ≠ origin) :
    d.AngleLt e ↔ Complex.arg ⟨d.x, d.y⟩ < Complex.arg ⟨e.x, e.y⟩ := by
  refine angleLt_iff_lt (upper_iff_arg_pos d) (upper_iff_arg_pos e) fun hupper => ?_
  rw [upper_iff_arg_pos, upper_iff_arg_pos] at hupper
  rw [cross_eq_sin, mul_pos_iff_of_pos_left
    (mul_pos (norm_pos_of_ne_origin hd) (norm_pos_of_ne_origin he))]
  exact sin_sub_arg_pos_iff hupper

instance : Polar.Ordered ℝ := .of_lt (fun _ _ => decide_eq_true_iff) angleLt_iff_arg

/-- How far to the right a direction leads on the square that stands on its corner. -/
def across (d : Point ℚ) : ℚ := d.x / (|d.x| + |d.y|)

theorem abs_add_abs_pos {d : Point ℚ} (hd : d ≠ origin) : 0 < |d.x| + |d.y| := by
  rcases ne_origin_iff.mp hd with h | h <;> positivity

theorem across_le_one (d : Point ℚ) : d.across ≤ 1 :=
  div_le_one_of_le₀ (by linarith [le_abs_self d.x, abs_nonneg d.y]) (by positivity)

theorem across_reverse (d : Point ℚ) : d.reverse.across = -d.across := by
  simp [across, reverse, neg_div]

theorem Upper.across_lt_one {d : Point ℚ} (hd : d.Upper) : d.across < 1 := by
  have hne : d ≠ origin := by
    rintro rfl
    simp [Upper, origin] at hd
  rw [across, div_lt_one (abs_add_abs_pos hne)]
  rcases hd with hy | ⟨hy, hx⟩
  · linarith [le_abs_self d.x, abs_of_pos hy]
  · linarith [abs_of_neg hx, abs_nonneg d.y]

theorem atan2_of_upper {d : Point ℚ} (hd : d.Upper) : Polar.atan2 d.y d.x = 1 - d.across :=
  if_neg hd.y_nonneg.not_gt

theorem atan2_of_not_upper {d : Point ℚ} (hd : d ≠ origin) (hlower : ¬ d.Upper) :
    Polar.atan2 d.y d.x = d.across - 1 := by
  rcases not_upper_iff.mp hlower with hy | ⟨hy, hx⟩
  · exact if_pos hy
  · have hne := (ne_origin_iff.mp hd).resolve_right (not_not_intro hy)
    have hacross : d.across = 1 := by simp [across, hy, abs_of_nonneg hx, hne]
    have hangle : Polar.atan2 d.y d.x = 1 - d.across := if_neg hy.not_lt
    rw [hangle, hacross]

theorem upper_iff_atan2_pos {d : Point ℚ} (hd : d ≠ origin) :
    d.Upper ↔ 0 < Polar.atan2 d.y d.x := by
  by_cases h : d.Upper
  · simp [h, atan2_of_upper h, h.across_lt_one]
  · simp [h, atan2_of_not_upper hd h, across_le_one]

/-- In the lower half-plane a greater angle leads further to the right. -/
theorem across_lt_across_iff {d e : Point ℚ} (hd : d ≠ origin) (he : e ≠ origin)
    (hdlower : ¬ d.Upper) (helower : ¬ e.Upper) : d.across < e.across ↔ 0 < d.cross e := by
  have hdy : d.y ≤ 0 := (not_upper_iff.mp hdlower).elim le_of_lt fun h => h.1.le
  have hey : e.y ≤ 0 := (not_upper_iff.mp helower).elim le_of_lt fun h => h.1.le
  rw [across, across, div_lt_div_iff₀ (abs_add_abs_pos hd) (abs_add_abs_pos he),
    abs_of_nonpos hdy, abs_of_nonpos hey, cross]
  rcases le_or_gt 0 d.x with hdx | hdx <;> rcases le_or_gt 0 e.x with hex | hex
  · rw [abs_of_nonneg hdx, abs_of_nonneg hex]
    constructor <;> intro h <;> linarith
  · rw [abs_of_nonneg hdx, abs_of_neg hex]
    have hx := mul_nonpos_of_nonneg_of_nonpos hdx hex.le
    have hde := mul_nonpos_of_nonneg_of_nonpos hdx hey
    have hed := mul_nonneg_of_nonpos_of_nonpos hdy hex.le
    constructor <;> intro h <;> linarith
  · -- the first direction leads to the left and the second does not
    have hdneg : d.y < 0 := (not_upper_iff.mp hdlower).resolve_right fun h => hdx.not_ge h.2
    have hcross : 0 < d.x * e.y - d.y * e.x := by
      rcases hex.lt_or_eq with hex | hex
      · linarith [mul_nonneg_of_nonpos_of_nonpos hdx.le hey, mul_neg_of_neg_of_pos hdneg hex]
      · have hne := (ne_origin_iff.mp he).resolve_left (not_not_intro hex.symm)
        rw [← hex, mul_zero, sub_zero]
        exact mul_pos_of_neg_of_neg hdx (hey.lt_of_ne hne)
    rw [abs_of_neg hdx, abs_of_nonneg hex]
    refine iff_of_true ?_ hcross
    linarith [mul_nonpos_of_nonpos_of_nonneg hdx.le hex]
  · rw [abs_of_neg hdx, abs_of_neg hex]
    constructor <;> intro h <;> linarith

theorem angleLt_iff_atan2 {d e : Point ℚ} (hd : d ≠ origin) (he : e ≠ origin) :
    d.AngleLt e ↔ Polar.atan2 d.y d.x < Polar.atan2 e.y e.x := by
  refine angleLt_iff_lt (upper_iff_atan2_pos hd) (upper_iff_atan2_pos he) fun hupper => ?_
  by_cases hdu : d.Upper
  · have heu := hupper.mp hdu
    have hlower {d : Point ℚ} (hd : d ≠ origin) (h : d.Upper) : ¬ d.reverse.Upper :=
      fun hr => (upper_reverse_iff hd).mp hr h
    have hreverse := across_lt_across_iff (reverse_ne_origin hd) (reverse_ne_origin he)
      (hlower hd hdu) (hlower he heu)
    rw [cross_reverse, across_reverse, across_reverse, neg_lt_neg_iff] at hreverse
    rw [atan2_of_upper hdu, atan2_of_upper heu, sub_lt_sub_iff_left]
    exact hreverse.symm
  · have heu := mt hupper.mpr hdu
    rw [atan2_of_not_upper hd hdu, atan2_of_not_upper he heu, sub_lt_sub_iff_right]
    exact (across_lt_across_iff hd he hdu heu).symm

instance : Polar.Ordered ℚ := .of_lt (fun _ _ => decide_eq_true_iff) angleLt_iff_atan2

end Point
end LinProg
