import Applogr.Foundation.Words

/-!
# Units of time

A duration is converted into a coarser unit by a division that truncates, and into a finer unit by
a multiplication that saturates.
-/

namespace TimeUnit

/-- The duration `d`, in a unit that is `ratio` times as long. -/
def toCoarser (ratio d : Int64) : Int64 := d / ratio

/-- The duration `d`, in a unit of which `ratio` are as long. -/
def toFiner (ratio d : Int64) : Int64 :=
  if d > Int64.maxValue / ratio then Int64.maxValue
  else if d < -(Int64.maxValue / ratio) then Int64.minValue
  else d * ratio

/-- `TimeUnit.MILLISECONDS.toSeconds(d)` -/
def millisecondsToSeconds (d : Int64) : Int64 := toCoarser 1000 d

/-- `TimeUnit.MILLISECONDS.toMinutes(d)` -/
def millisecondsToMinutes (d : Int64) : Int64 := toCoarser 60000 d

/-- `TimeUnit.MILLISECONDS.toHours(d)` -/
def millisecondsToHours (d : Int64) : Int64 := toCoarser 3600000 d

/-- `TimeUnit.MINUTES.toSeconds(d)` -/
def minutesToSeconds (d : Int64) : Int64 := toFiner 60 d

/-- `TimeUnit.HOURS.toMinutes(d)` -/
def hoursToMinutes (d : Int64) : Int64 := toFiner 60 d

variable {ratio d : Int64}

theorem toInt_toCoarser (ratio : Int64) (hd : 0 ≤ d.toInt) :
  (toCoarser ratio d).toInt = d.toInt / ratio.toInt
  := by
  have hne : d ≠ Int64.minValue := by
    rintro rfl
    revert hd
    decide
  rw [toCoarser, Int64.toInt_div_of_ne_left d ratio hne, Int.tdiv_eq_ediv_of_nonneg hd]

/-- A duration that fits is converted into a finer unit without saturation. -/
theorem toInt_toFiner (hratio : 0 < ratio.toInt) (hd : 0 ≤ d.toInt)
    (hfits : d.toInt * ratio.toInt < 2 ^ 63) :
  (toFiner ratio d).toInt = d.toInt * ratio.toInt
  := by
  have hmax : (Int64.maxValue / ratio).toInt = (2 ^ 63 - 1) / ratio.toInt := by
    apply toInt_toCoarser ratio
    decide
  have hquot : 0 ≤ ((2 ^ 63 - 1) / ratio.toInt : ℤ) ∧ ((2 ^ 63 - 1) / ratio.toInt : ℤ) ≤ 2 ^ 63 - 1 := by
    constructor
    · apply Int.ediv_nonneg
      · decide
      · apply Int.le_of_lt hratio
    · apply Int.ediv_le_self
      decide
  have hle : d.toInt ≤ (2 ^ 63 - 1) / ratio.toInt := by
    apply (Int.le_ediv_iff_mul_le hratio).mpr
    omega
  have hnonneg : 0 ≤ d.toInt * ratio.toInt := Int.mul_nonneg hd (Int.le_of_lt hratio)
  have hover : ¬ d > Int64.maxValue / ratio := by
    rw [gt_iff_lt, Int64.lt_iff_toInt_lt, hmax]
    omega
  have hunder : ¬ d < -(Int64.maxValue / ratio) := by
    have hmin : (-(Int64.maxValue / ratio)).toInt = -((2 ^ 63 - 1) / ratio.toInt) := by
      rw [Int64.toInt_neg, hmax]
      apply Int.bmod_eq_of_le
      · omega
      · omega
    rw [Int64.lt_iff_toInt_lt, hmin]
    omega
  rw [toFiner, if_neg hover, if_neg hunder, Int64.toInt_mul]
  apply Int.bmod_eq_of_le
  · omega
  · omega

/-- What is left of a duration of `d` units of which `a` make a coarser unit, of which `b` make a
unit that is coarser still. -/
theorem toInt_rest {a b c : Int64} (ha : 0 < a.toInt) (hb : 0 < b.toInt)
    (hc : c.toInt = a.toInt * b.toInt) (hd : 0 ≤ d.toInt) :
  (toFiner b (toCoarser c d)).toInt = d.toInt / c.toInt * b.toInt ∧
    (toCoarser a d - toFiner b (toCoarser c d)).toInt = d.toInt / a.toInt % b.toInt
  := by
  have hnonneg : 0 ≤ d.toInt / c.toInt := by
    apply Int.ediv_nonneg hd
    rw [hc]
    apply Int.le_of_lt (Int.mul_pos ha hb)
  have hcoarse := toInt_toCoarser c hd
  have hfine := toInt_toCoarser a hd
  have hsplit : d.toInt / a.toInt % b.toInt = d.toInt / a.toInt - d.toInt / c.toInt * b.toInt := by
    rw [hc, ← Int.ediv_ediv_of_nonneg (Int.le_of_lt ha), Int.mul_comm, Int.emod_def]
  have hmod : 0 ≤ d.toInt / a.toInt % b.toInt := Int.emod_nonneg _ (Int.ne_of_gt hb)
  have hle : d.toInt / a.toInt ≤ d.toInt := Int.ediv_le_self a.toInt hd
  have hlt := d.toInt_lt
  have hfiner : (toFiner b (toCoarser c d)).toInt = d.toInt / c.toInt * b.toInt := by
    rw [toInt_toFiner hb (by rw [hcoarse]; exact hnonneg), hcoarse]
    rw [hcoarse]
    omega
  constructor
  · apply hfiner
  · rw [Int64.toInt_sub, hfine, hfiner, ← hsplit]
    apply Int.bmod_eq_of_le
    · omega
    · have hlt' := Int.emod_lt_of_pos (d.toInt / a.toInt) hb
      have hb' := b.toInt_lt
      omega

end TimeUnit
