import Mathlib.Data.List.GetD
import Mathlib.Tactic.Ring
import Steel.Lib.Histogram
import Steel.Utils.Position

/-!
# The largest rectangle around a block

From a center block the scan goes outward along the first axis, and from each block it reaches
along the second one, never farther than in the column before. Row by row the columns are then a
histogram, whose largest rectangle is found with a stack of the columns that are still open.
Coordinates wrap; indices, sizes and areas are exact, for limits whose largest area is an `i32`.
-/

namespace Steel

namespace BlockPos

def relativeAxis (pos : BlockPos) (axis : Axis) (n : Int) : BlockPos :=
  if n = 0 then pos
  else
    match axis with
    | .x => { pos with x := wrapI32 (pos.x + n) }
    | .y => { pos with y := wrapI32 (pos.y + n) }
    | .z => { pos with z := wrapI32 (pos.z + n) }

/-- The steps along the coordinates that a number of steps along an axis are. -/
def axisSteps (axis : Axis) (n : Int) : Int × Int × Int :=
  match axis with
  | .x => (n, 0, 0)
  | .y => (0, n, 0)
  | .z => (0, 0, n)

variable {pos : BlockPos}

theorem relativeAxis_eq (h : pos.InRange) (axis : Axis) (n : Int) :
    pos.relativeAxis axis n = ⟨wrapI32 (pos.x + (axisSteps axis n).1),
      wrapI32 (pos.y + (axisSteps axis n).2.1), wrapI32 (pos.z + (axisSteps axis n).2.2)⟩ := by
  obtain ⟨hx, hy, hz⟩ := h
  by_cases hn : n = 0 <;> cases axis <;>
    simp [relativeAxis, axisSteps, hn, wrapI32_eq_self hx, wrapI32_eq_self hy, wrapI32_eq_self hz]

theorem InRange.relativeAxis (h : pos.InRange) (axis : Axis) (n : Int) :
    (pos.relativeAxis axis n).InRange := by
  rw [relativeAxis_eq h]
  exact ⟨wrapI32_mem _, wrapI32_mem _, wrapI32_mem _⟩

theorem relativeAxis_relativeAxis (h : pos.InRange) (axis : Axis) (m n : Int) :
    (pos.relativeAxis axis m).relativeAxis axis n = pos.relativeAxis axis (m + n) := by
  rw [relativeAxis_eq (h.relativeAxis axis m), relativeAxis_eq h, relativeAxis_eq h]
  cases axis <;> simp only [axisSteps, wrapI32_wrapI32_add, add_assoc, zero_add]

theorem relativeAxis_comm (h : pos.InRange) (axis1 axis2 : Axis) (m n : Int) :
    (pos.relativeAxis axis1 m).relativeAxis axis2 n =
      (pos.relativeAxis axis2 n).relativeAxis axis1 m := by
  rw [relativeAxis_eq (h.relativeAxis axis1 m), relativeAxis_eq (h.relativeAxis axis2 n),
    relativeAxis_eq h, relativeAxis_eq h]
  simp only [wrapI32_wrapI32_add, add_right_comm]

/-- The block `a` steps along the first axis and `b` along the second. -/
def onPlane (pos : BlockPos) (axis1 axis2 : Axis) (a b : Int) : BlockPos :=
  (pos.relativeAxis axis1 a).relativeAxis axis2 b

theorem InRange.onPlane (h : pos.InRange) (axis1 axis2 : Axis) (a b : Int) :
    (pos.onPlane axis1 axis2 a b).InRange :=
  (h.relativeAxis axis1 a).relativeAxis axis2 b

theorem onPlane_onPlane (h : pos.InRange) (axis1 axis2 : Axis) (a b a' b' : Int) :
    (pos.onPlane axis1 axis2 a b).onPlane axis1 axis2 a' b' =
      pos.onPlane axis1 axis2 (a + a') (b + b') := by
  rw [onPlane, onPlane, onPlane, relativeAxis_comm (h.relativeAxis axis1 a) axis2 axis1,
    relativeAxis_relativeAxis h, relativeAxis_relativeAxis (h.relativeAxis axis1 _)]

theorem onPlane_zero (pos : BlockPos) (axis1 axis2 : Axis) : pos.onPlane axis1 axis2 0 0 = pos :=
  rfl

theorem onPlane_inj (hpos : pos.InRange) {axis1 axis2 : Axis} (hne : axis1 ≠ axis2)
    {a b a' b' : Int} (ha : (a - a').natAbs < 4294967296) (hb : (b - b').natAbs < 4294967296)
    (h : pos.onPlane axis1 axis2 a b = pos.onPlane axis1 axis2 a' b') : a = a' ∧ b = b' := by
  rw [onPlane, onPlane, relativeAxis_eq (hpos.relativeAxis axis1 a), relativeAxis_eq hpos,
    relativeAxis_eq (hpos.relativeAxis axis1 a'), relativeAxis_eq hpos] at h
  simp only [wrapI32_wrapI32_add, mk.injEq] at h
  obtain ⟨hx, hy, hz⟩ := h
  have hfirst : ∀ n, wrapI32 (n + a) = wrapI32 (n + a') → a = a' :=
    fun n h => wrapI32_add_injective h ha
  have hsecond : ∀ n, wrapI32 (n + b) = wrapI32 (n + b') → b = b' :=
    fun n h => wrapI32_add_injective h hb
  cases axis1 <;> cases axis2 <;> simp only [axisSteps, add_zero] at hx hy hz <;>
    first
    | exact absurd rfl hne
    | exact ⟨hfirst _ ‹_›, hsecond _ ‹_›⟩

end BlockPos

namespace BlockUtil

structure FoundRectangle where
  minCorner : BlockPos
  axis1Size : ℕ
  axis2Size : ℕ
deriving DecidableEq, Repr

structure IntBounds where
  min : ℕ
  max : ℕ
deriving DecidableEq, Repr

def getLimit (test : BlockPos → Bool) (axis : Axis) (step : Int) : ℕ → BlockPos → ℕ
  | 0, _ => 0
  | limit + 1, pos =>
    let pos := pos.relativeAxis axis step
    if test pos then getLimit test axis step limit pos + 1 else 0

/-- The loop `for i in i..` over one side of the center, whose columns are listed outward. -/
def outwardBounds (test : BlockPos → Bool) (center : BlockPos) (axis1 axis2 : Axis) (step : Int) :
    ℕ → ℕ → IntBounds → List IntBounds
  | 0, _, _ => []
  | delta + 1, i, last =>
    let origin := center.relativeAxis axis1 (step * i)
    let bounds : IntBounds :=
      { min := getLimit test axis2 (-1) last.min origin
        max := getLimit test axis2 1 last.max origin }
    bounds :: outwardBounds test center axis1 axis2 step delta (i + 1) bounds

structure MaxRectangle where
  start : ℕ
  stop : ℕ
  height : ℕ

def MaxRectangle.area (rectangle : MaxRectangle) : ℕ :=
  rectangle.height * (rectangle.stop - rectangle.start)

/-- Where the rectangle of a column starts that lies on this stack. -/
def startAbove : List ℕ → ℕ
  | [] => 0
  | top :: _ => top + 1

/-- The loop over the stack for one column. The last element of the source's stack comes first. -/
def closeColumns (columns : List ℕ) (column height : ℕ) :
    List ℕ → MaxRectangle → List ℕ × MaxRectangle
  | [], best => ([column], best)
  | top :: stack, best =>
    let stackHeight := columns.getD top 0
    if height ≥ stackHeight then (column :: top :: stack, best)
    else
      let start := startAbove stack
      closeColumns columns column height stack
        (if stackHeight * (column - start) > best.area then
          { start, stop := column, height := stackHeight }
        else best)

def scanColumns (columns : List ℕ) : ℕ → List ℕ × MaxRectangle
  | 0 => ([0], { start := 0, stop := 0, height := 0 })
  | scanned + 1 =>
    let column := scanned + 1
    let height := if column = columns.length then 0 else columns.getD column 0
    closeColumns columns column height (scanColumns columns scanned).1
      (scanColumns columns scanned).2

/-- Half open, where the source returns the last column of the rectangle. -/
def getMaxRectangleLocation (columns : List ℕ) : MaxRectangle :=
  (scanColumns columns columns.length).2

def columnHeight (centerIndex2 i2 : ℕ) (bounds2 : IntBounds) : ℕ :=
  let min2 := centerIndex2 - bounds2.min
  let max2 := centerIndex2 + bounds2.max
  if i2 ≥ min2 ∧ i2 ≤ max2 then max2 + 1 - i2 else 0

structure RowRectangle where
  minAxis1 : ℕ
  minAxis2 : ℕ
  sizeAxis1 : ℕ
  sizeAxis2 : ℕ

def RowRectangle.area (rectangle : RowRectangle) : ℕ :=
  rectangle.sizeAxis1 * rectangle.sizeAxis2

def rowRectangle (boundsByAxis1 : List IntBounds) (centerIndex2 i2 : ℕ) : RowRectangle :=
  let found := getMaxRectangleLocation (boundsByAxis1.map (columnHeight centerIndex2 i2))
  { minAxis1 := found.start, minAxis2 := i2
    sizeAxis1 := found.stop - found.start, sizeAxis2 := found.height }

def keepRow (boundsByAxis1 : List IntBounds) (centerIndex2 : ℕ) (best : RowRectangle) (i2 : ℕ) :
    RowRectangle :=
  let row := rowRectangle boundsByAxis1 centerIndex2 i2
  if row.area > best.area then row else best

def boundsByAxis1 (test : BlockPos → Bool) (center : BlockPos) (axis1 axis2 : Axis)
    (negativeDelta1 positiveDelta1 : ℕ) (centerBounds : IntBounds) : List IntBounds :=
  (outwardBounds test center axis1 axis2 (-1) negativeDelta1 1 centerBounds).reverse ++
    centerBounds :: outwardBounds test center axis1 axis2 1 positiveDelta1 1 centerBounds

/-- `none` is the failed assertion that the limits are not negative. -/
def getLargestRectangleAround (center : BlockPos) (axis1 : Axis) (limit1 : Int) (axis2 : Axis)
    (limit2 : Int) (test : BlockPos → Bool) : Option FoundRectangle :=
  if limit1 ≥ 0 ∧ limit2 ≥ 0 then
    let negativeDelta1 := getLimit test axis1 (-1) limit1.toNat center
    let positiveDelta1 := getLimit test axis1 1 limit1.toNat center
    let centerBounds : IntBounds :=
      { min := getLimit test axis2 (-1) limit2.toNat center
        max := getLimit test axis2 1 limit2.toNat center }
    let centerIndex2 := centerBounds.min
    let bounds := boundsByAxis1 test center axis1 axis2 negativeDelta1 positiveDelta1 centerBounds
    let best := (List.range (centerIndex2 + 1)).reverse.foldl (keepRow bounds centerIndex2)
      { minAxis1 := 0, minAxis2 := 0, sizeAxis1 := 0, sizeAxis2 := 0 }
    some
      { minCorner := (center.relativeAxis axis1 (best.minAxis1 - negativeDelta1)).relativeAxis axis2
          (best.minAxis2 - centerIndex2)
        axis1Size := best.sizeAxis1
        axis2Size := best.sizeAxis2 }
  else none

section Columns

open Histogram

variable (columns : List ℕ)

/-- Each column of the stack is open: none from its start on is lower. -/
def Staircase (column : ℕ) : List ℕ → Prop
  | [] => True
  | top :: stack =>
    startAbove stack ≤ top ∧ top < column ∧
      Histogram.Fits (columns.getD · 0) (startAbove stack) column (columns.getD top 0) ∧
      Staircase column stack

/-- A rectangle from `start` on grows with the one of an open column. -/
def Covers (start level : ℕ) : List ℕ → Prop
  | [] => False
  | top :: stack =>
    (startAbove stack ≤ start ∧ level ≤ columns.getD top 0) ∨ Covers start level stack

/-- Every rectangle that ends before `column` has been met or is still open. -/
def Met (column : ℕ) (stack : List ℕ) (best : MaxRectangle) : Prop :=
  ∀ start stop level, stop ≤ column → Histogram.Fits (columns.getD · 0) start stop level →
    level * (stop - start) ≤ best.area ∨ Covers columns start level stack

structure Under (column : ℕ) (best : MaxRectangle) : Prop where
  stop_le : best.stop ≤ column
  fits : Histogram.Fits (columns.getD · 0) best.start best.stop best.height

variable {columns} {column : ℕ} {stack : List ℕ} {best : MaxRectangle}

theorem Staircase.succ (h : Staircase columns column stack)
    (hle : ∀ top ∈ stack.head?, columns.getD top 0 ≤ columns.getD column 0) :
    Staircase columns (column + 1) stack := by
  induction stack with
  | nil => trivial
  | cons top stack ih =>
    obtain ⟨hstart, hlt, hfits, hrest⟩ := h
    have htop := hle top rfl
    refine ⟨hstart, by omega, ?_, ih hrest ?_⟩
    · intro i hi hicolumn
      obtain rfl | hi' := Nat.eq_or_lt_of_le (Nat.lt_succ_iff.mp hicolumn)
      · exact htop
      · exact hfits i hi hi'
    · intro below hbelow
      cases stack with
      | nil => cases hbelow
      | cons _ _ =>
        cases hbelow
        obtain ⟨hstart', _, hfits', _⟩ := hrest
        rw [startAbove] at hstart
        exact (hfits' top (by omega) hlt).trans htop

theorem Covers.level_le {start level : ℕ} (h : Covers columns start level stack)
    (hstairs : Staircase columns (column + 1) stack) : level ≤ columns.getD column 0 := by
  induction stack with
  | nil => exact h.elim
  | cons top stack ih =>
    obtain ⟨hstart, hlt, hfits, hrest⟩ := hstairs
    rcases h with ⟨_, hlevel⟩ | h
    · exact hlevel.trans (hfits column (by omega) (by omega))
    · exact ih h hrest

theorem covers_of_fits {start level : ℕ} (hstairs : Staircase columns column stack)
    (hstart : start < startAbove stack)
    (hfits : Histogram.Fits (columns.getD · 0) start column level) :
    Covers columns start level stack := by
  induction stack with
  | nil => exact absurd hstart (Nat.not_lt_zero start)
  | cons top stack ih =>
    obtain ⟨_, hlt, _, hrest⟩ := hstairs
    rw [startAbove] at hstart
    by_cases hopen : startAbove stack ≤ start
    · exact .inl ⟨hopen, hfits top (by omega) hlt⟩
    · exact .inr (ih hrest (by omega))

theorem fits_of_closed {start : ℕ}
    (h : ∀ i, start ≤ i → i < column → columns.getD column 0 < columns.getD i 0) :
    Histogram.Fits (columns.getD · 0) start (column + 1) (columns.getD column 0) := by
  intro i hi hicolumn
  obtain rfl | hlt := Nat.eq_or_lt_of_le (Nat.lt_succ_iff.mp hicolumn)
  · exact le_rfl
  · exact (h i hi hlt).le

/-- What one column does: it closes the higher columns and opens its own. -/
theorem closeColumns_spec (hstairs : Staircase columns column stack)
    (hclosed : ∀ i, startAbove stack ≤ i → i < column →
      columns.getD column 0 < columns.getD i 0)
    (hstack : startAbove stack ≤ column)
    (hunder : Under columns column best) (hmet : Met columns column stack best) :
    Staircase columns (column + 1)
        (closeColumns columns column (columns.getD column 0) stack best).1 ∧
      startAbove (closeColumns columns column (columns.getD column 0) stack best).1 = column + 1 ∧
      Under columns column
        (closeColumns columns column (columns.getD column 0) stack best).2 ∧
      Met columns column (closeColumns columns column (columns.getD column 0) stack best).1
        (closeColumns columns column (columns.getD column 0) stack best).2 := by
  have hlowest := fits_of_closed hclosed
  induction stack generalizing best with
  | nil =>
    refine ⟨⟨Nat.zero_le _, Nat.lt_succ_self _, hlowest, trivial⟩, rfl, hunder, ?_⟩
    intro start stop level hstop hfits
    exact .inl ((hmet start stop level hstop hfits).resolve_right id)
  | cons top stack ih =>
    obtain ⟨hstart, hlt, hfits, hrest⟩ := hstairs
    rw [closeColumns]
    split
    · rename_i hheight
      refine ⟨⟨hstack, Nat.lt_succ_self _, hlowest, ?_⟩, rfl, hunder, ?_⟩
      · refine Staircase.succ ⟨hstart, hlt, hfits, hrest⟩ ?_
        rintro _ ⟨⟩
        exact hheight
      · intro start stop level hstop hrectangle
        exact (hmet start stop level hstop hrectangle).imp_right .inr
    · rename_i hheight
      have hbelow : ∀ i, startAbove stack ≤ i → i < column →
          columns.getD column 0 < columns.getD i 0 := by
        intro i hi hicolumn
        exact (not_le.mp hheight).trans_le (hfits i hi hicolumn)
      refine ih hrest hbelow (by omega) ?_ ?_ ?_
      · split
        · exact ⟨le_rfl, hfits⟩
        · exact hunder
      · intro start stop level hstop hrectangle
        obtain hmet | ⟨hopen, hlevel⟩ | hcovers := hmet start stop level hstop hrectangle
        · left
          split
          · rename_i hlarger
            exact hmet.trans hlarger.le
          · exact hmet
        · left
          have harea : level * (stop - start) ≤
              columns.getD top 0 * (column - startAbove stack) :=
            Nat.mul_le_mul hlevel (by omega)
          split
          · exact harea
          · rename_i hlarger
            exact harea.trans (not_lt.mp hlarger)
        · exact .inr hcovers
      · exact fits_of_closed hbelow

/-- After the last column, of height 0, only columns of height 0 are open. -/
theorem scanColumns_spec (columns : List ℕ) (scanned : ℕ) :
    Staircase columns (scanned + 1) (scanColumns columns scanned).1 ∧
      startAbove (scanColumns columns scanned).1 = scanned + 1 ∧
      Under columns scanned (scanColumns columns scanned).2 ∧
      Met columns (scanned + 1) (scanColumns columns scanned).1
        (scanColumns columns scanned).2 := by
  induction scanned with
  | zero =>
    have hstairs : Staircase columns 1 [0] := by
      refine ⟨le_rfl, Nat.one_pos, ?_, trivial⟩
      intro i _ hi
      rw [show i = 0 by omega]
    refine ⟨hstairs, rfl, ⟨le_rfl, fun i _ hi => absurd hi (Nat.not_lt_zero i)⟩, ?_⟩
    intro start stop level hstop hfits
    by_cases hempty : stop ≤ start
    · exact .inl (by rw [Nat.sub_eq_zero_of_le hempty, Nat.mul_zero]; exact Nat.zero_le _)
    · rw [show stop = 1 by omega] at hfits
      exact .inr (covers_of_fits hstairs (show start < 1 by omega) hfits)
  | succ scanned ih =>
    obtain ⟨hstairs, hstack, hunder, hmet⟩ := ih
    have hheight : (if scanned + 1 = columns.length then 0 else columns.getD (scanned + 1) 0) =
        columns.getD (scanned + 1) 0 := by
      split
      · rename_i hlast
        rw [hlast, List.getD_eq_default _ _ le_rfl]
      · rfl
    rw [scanColumns, hheight]
    obtain ⟨hstairs', hstack', hunder', hmet'⟩ := closeColumns_spec hstairs
      (by intro i hi hlt; omega) hstack.le ⟨hunder.stop_le.trans (Nat.le_succ _), hunder.fits⟩ hmet
    refine ⟨hstairs', hstack', hunder', ?_⟩
    intro start stop level hstop hfits
    by_cases hnew : stop = scanned + 1 + 1
    · subst hnew
      by_cases hempty : scanned + 1 + 1 ≤ start
      · exact .inl (by rw [Nat.sub_eq_zero_of_le hempty, Nat.mul_zero]; exact Nat.zero_le _)
      · exact .inr (covers_of_fits hstairs' (by omega) hfits)
    · exact hmet' start stop level (by omega) hfits

theorem getMaxRectangleLocation_isLargest (columns : List ℕ) :
    IsLargest (columns.getD · 0) columns.length (getMaxRectangleLocation columns).start
      (getMaxRectangleLocation columns).stop (getMaxRectangleLocation columns).height := by
  obtain ⟨hstairs, _, hunder, hmet⟩ := scanColumns_spec columns columns.length
  refine ⟨hunder.stop_le, hunder.fits, ?_⟩
  intro start stop level hstop hfits
  rcases hmet start stop level (by omega) hfits with harea | hcovers
  · exact harea
  · have hlevel := hcovers.level_le hstairs
    rw [List.getD_eq_default _ _ le_rfl] at hlevel
    rw [Nat.le_zero.mp hlevel, Nat.zero_mul]
    exact Nat.zero_le _

end Columns

section Bounds

/-- The two directions of an axis, by whether they go up it. -/
def side (up : Bool) : Int :=
  if up then 1 else -1

def IntBounds.toward (bounds : IntBounds) (up : Bool) : ℕ :=
  if up then bounds.max else bounds.min

variable (test : BlockPos → Bool) (center : BlockPos) (axis1 axis2 : Axis)

/-- The first `d` blocks on one side of the block `a` steps from the center pass the test. -/
def Reaches (a : Int) (up : Bool) (d : ℕ) : Prop :=
  ∀ k : ℕ, 1 ≤ k → k ≤ d → test (center.onPlane axis1 axis2 a (side up * k)) = true

variable {test center axis1 axis2}

variable {d limit i delta right left index : ℕ} {step : Int} {last bounds atCenter : IntBounds}

/-- The scan stops at the first block that does not pass the test. -/
theorem le_getLimit_iff {axis : Axis} {pos : BlockPos} (hpos : pos.InRange) :
    d ≤ getLimit test axis step limit pos ↔
      d ≤ limit ∧ ∀ k : ℕ, 1 ≤ k → k ≤ d → test (pos.relativeAxis axis (step * k)) = true := by
  induction limit generalizing pos d with
  | zero =>
    rw [getLimit]
    refine ⟨fun h => ⟨h, ?_⟩, And.left⟩
    intro k hk0 hk
    omega
  | succ limit ih =>
    rw [getLimit]
    cases d with
    | zero =>
      refine ⟨fun _ => ⟨Nat.zero_le _, ?_⟩, fun _ => Nat.zero_le _⟩
      intro k hk0 hk
      omega
    | succ d =>
      split
      · rename_i hnext
        rw [Nat.succ_le_succ_iff, Nat.succ_le_succ_iff, ih (hpos.relativeAxis axis step)]
        refine and_congr_right fun _ => ⟨?_, ?_⟩
        · intro h k hk0 hk
          obtain rfl | hlarge := Nat.eq_or_lt_of_le hk0
          · rw [Nat.cast_one, mul_one]
            exact hnext
          · have hk' := h (k - 1) (by omega) (by omega)
            rw [BlockPos.relativeAxis_relativeAxis hpos] at hk'
            rwa [show step * (k : Int) = step + step * ((k - 1 : ℕ) : Int) by
              push_cast [Nat.cast_sub hk0]; ring]
        · intro h k hk0 hk
          have hk' := h (k + 1) (by omega) (by omega)
          rw [BlockPos.relativeAxis_relativeAxis hpos]
          rwa [show step + step * (k : Int) = step * ((k + 1 : ℕ) : Int) by push_cast; ring]
      · rename_i hnext
        refine ⟨fun h => absurd h (Nat.not_succ_le_zero d), fun h => absurd ?_ hnext⟩
        have hone := h.2 1 le_rfl (by omega)
        rwa [Nat.cast_one, mul_one] at hone

theorem le_getLimit_iff_reaches (hcenter : center.InRange) (a : Int) (up : Bool) :
    d ≤ getLimit test axis2 (side up) limit (center.relativeAxis axis1 a) ↔
      d ≤ limit ∧ Reaches test center axis1 axis2 a up d :=
  le_getLimit_iff (hcenter.relativeAxis axis1 a)

theorem length_outwardBounds :
    (outwardBounds test center axis1 axis2 step delta i last).length = delta := by
  induction delta generalizing i last with
  | zero => rfl
  | succ delta ih => rw [outwardBounds, List.length_cons, ih]

/-- A column reaches as far as every column from the first one to it. -/
theorem le_outwardBounds_iff (hcenter : center.InRange) {k : ℕ} {up : Bool}
    (h : (outwardBounds test center axis1 axis2 step delta i last)[k]? = some bounds) :
    d ≤ bounds.toward up ↔ d ≤ last.toward up ∧
      ∀ j : ℕ, i ≤ j → j ≤ i + k → Reaches test center axis1 axis2 (step * j) up d := by
  induction delta generalizing i last k with
  | zero => cases h
  | succ delta ih =>
    rw [outwardBounds] at h
    set first : IntBounds :=
      { min := getLimit test axis2 (-1) last.min (center.relativeAxis axis1 (step * i))
        max := getLimit test axis2 1 last.max (center.relativeAxis axis1 (step * i)) }
    have hfirst : d ≤ first.toward up ↔
        d ≤ last.toward up ∧ Reaches test center axis1 axis2 (step * i) up d := by
      cases up
      · exact le_getLimit_iff_reaches hcenter _ false
      · exact le_getLimit_iff_reaches hcenter _ true
    cases k with
    | zero =>
      rw [← Option.some.inj h, hfirst]
      refine and_congr_right fun _ => ⟨?_, fun hall => hall i le_rfl le_rfl⟩
      intro hreaches j hle hge
      rwa [show j = i by omega]
    | succ k =>
      rw [ih h, hfirst, and_assoc]
      refine and_congr_right fun _ => ⟨?_, ?_⟩
      · rintro ⟨hreaches, hall⟩ j hle hge
        obtain rfl | hlt := Nat.eq_or_lt_of_le hle
        · exact hreaches
        · exact hall j hlt (by omega)
      · intro hall
        exact ⟨hall i le_rfl (by omega), fun j hle hge => hall j (by omega) (by omega)⟩

theorem length_boundsByAxis1 :
    (boundsByAxis1 test center axis1 axis2 left right atCenter).length = left + 1 + right := by
  simp only [boundsByAxis1, List.length_append, List.length_reverse, List.length_cons,
    length_outwardBounds]
  omega

theorem exists_boundsByAxis1 (atCenter : IntBounds) (h : index < left + 1 + right) : ∃ bounds,
      (boundsByAxis1 test center axis1 axis2 left right atCenter)[index]? = some bounds :=
  ⟨_, List.getElem?_eq_getElem (by rwa [length_boundsByAxis1])⟩

/-- The column with index `left` is the one through the center. -/
theorem le_boundsByAxis1_iff (hcenter : center.InRange) (up : Bool)
    (h : (boundsByAxis1 test center axis1 axis2 left right atCenter)[index]? = some bounds) :
    d ≤ bounds.toward up ↔ d ≤ atCenter.toward up ∧
      ∀ a : Int, (0 < a ∧ a ≤ index - left) ∨ (index - left ≤ a ∧ a < 0) →
        Reaches test center axis1 axis2 a up d := by
  rw [boundsByAxis1] at h
  rcases Nat.lt_trichotomy index left with hlt | rfl | hgt
  · rw [List.getElem?_append_left (by rwa [List.length_reverse, length_outwardBounds]),
      List.getElem?_reverse (by rwa [length_outwardBounds]), length_outwardBounds] at h
    rw [le_outwardBounds_iff hcenter h]
    refine and_congr_right fun _ => ⟨?_, ?_⟩
    · intro hall a ha
      have := hall a.natAbs (by omega) (by omega)
      rwa [show -1 * (a.natAbs : Int) = a by omega] at this
    · intro hall j hle hge
      exact hall (-1 * j) (by omega)
  · rw [List.getElem?_append_right (by rw [List.length_reverse, length_outwardBounds]),
      List.length_reverse, length_outwardBounds, Nat.sub_self] at h
    rw [← Option.some.inj h]
    refine ⟨fun hd => ⟨hd, ?_⟩, And.left⟩
    intro a ha
    omega
  · rw [List.getElem?_append_right (by rw [List.length_reverse, length_outwardBounds]; omega),
      List.length_reverse, length_outwardBounds,
      show index - left = index - left - 1 + 1 by omega, List.getElem?_cons_succ] at h
    rw [le_outwardBounds_iff hcenter h]
    refine and_congr_right fun _ => ⟨?_, ?_⟩
    · intro hall a ha
      have := hall a.natAbs (by omega) (by omega)
      rwa [show 1 * (a.natAbs : Int) = a by omega] at this
    · intro hall j hle hge
      exact hall (1 * j) (by omega)

variable (test center axis1 axis2) in
/-- What the first four scans say about the cross through the center. -/
structure Scanned (limit1 limit2 left right : ℕ) (atCenter : IntBounds) : Prop where
  inRange : center.InRange
  center_passes : test center = true
  le_left_iff : ∀ d, d ≤ left ↔ d ≤ limit1 ∧
    ∀ k : ℕ, 1 ≤ k → k ≤ d → test (center.onPlane axis1 axis2 (-1 * k) 0) = true
  le_right_iff : ∀ d, d ≤ right ↔ d ≤ limit1 ∧
    ∀ k : ℕ, 1 ≤ k → k ≤ d → test (center.onPlane axis1 axis2 (1 * k) 0) = true
  le_atCenter_iff : ∀ up d, d ≤ atCenter.toward up ↔
    d ≤ limit2 ∧ Reaches test center axis1 axis2 0 up d

namespace Scanned

variable {limit1 limit2 left right : ℕ} {atCenter : IntBounds}

theorem of_getLimit (hcenter : center.InRange) (h : test center = true) :
    Scanned test center axis1 axis2 limit1 limit2 (getLimit test axis1 (-1) limit1 center)
      (getLimit test axis1 1 limit1 center)
      { min := getLimit test axis2 (-1) limit2 center
        max := getLimit test axis2 1 limit2 center } where
  inRange := hcenter
  center_passes := h
  le_left_iff _ := le_getLimit_iff hcenter
  le_right_iff _ := le_getLimit_iff hcenter
  le_atCenter_iff up _ := by
    cases up
    · exact le_getLimit_iff_reaches hcenter 0 false
    · exact le_getLimit_iff_reaches hcenter 0 true

variable (hscan : Scanned test center axis1 axis2 limit1 limit2 left right atCenter)

include hscan

/-- A column reaches as far as all columns between it and the center. -/
theorem le_toward_iff (up : Bool) {index d : ℕ} {bounds : IntBounds}
    (h : (boundsByAxis1 test center axis1 axis2 left right atCenter)[index]? = some bounds) :
    d ≤ bounds.toward up ↔ d ≤ limit2 ∧
      ∀ a : Int, (0 ≤ a ∧ a ≤ index - left) ∨ (index - left ≤ a ∧ a ≤ 0) →
        Reaches test center axis1 axis2 a up d := by
  rw [le_boundsByAxis1_iff hscan.inRange up h, hscan.le_atCenter_iff, and_assoc]
  refine and_congr_right fun _ => ⟨?_, ?_⟩
  · rintro ⟨hcenter, hall⟩ a ha
    by_cases hzero : a = 0
    · rwa [hzero]
    · exact hall a (by omega)
  · intro hall
    exact ⟨hall 0 (by omega), fun a ha => hall a (by omega)⟩

theorem toward_le_toward {index index' : ℕ} {bounds bounds' : IntBounds} (up : Bool)
    (h : (boundsByAxis1 test center axis1 axis2 left right atCenter)[index]? = some bounds)
    (h' : (boundsByAxis1 test center axis1 axis2 left right atCenter)[index']? = some bounds')
    (hbetween : (index ≤ index' ∧ index' ≤ left) ∨ (left ≤ index' ∧ index' ≤ index)) :
    bounds.toward up ≤ bounds'.toward up := by
  obtain ⟨hlimit, hall⟩ := (hscan.le_toward_iff up h).mp le_rfl
  exact (hscan.le_toward_iff up h').mpr ⟨hlimit, fun a ha => hall a (by omega)⟩

/-- Every block from the end of one scan to the end of the other passes. -/
theorem passes_of_mem {a : Int} (hleft : -left ≤ a) (hright : a ≤ right) :
    test (center.onPlane axis1 axis2 a 0) = true := by
  rcases lt_trichotomy a 0 with hneg | rfl | hpos
  · have := ((hscan.le_left_iff left).mp le_rfl).2 a.natAbs (by omega) (by omega)
    rwa [show -1 * (a.natAbs : Int) = a by omega] at this
  · exact hscan.center_passes
  · have := ((hscan.le_right_iff right).mp le_rfl).2 a.natAbs (by omega) (by omega)
    rwa [show 1 * (a.natAbs : Int) = a by omega] at this

end Scanned

end Bounds

section Rows

open Histogram

/-- The height of a column from `d` rows under the center on. -/
def rowHeight (bounds : List IntBounds) (d index : ℕ) : ℕ :=
  bounds[index]?.elim 0 fun bounds2 => if d ≤ bounds2.min then bounds2.max + 1 + d else 0

variable {bounds : List IntBounds} {d level index : ℕ}

theorem getD_map_columnHeight {centerIndex2 : ℕ} (hd : d ≤ centerIndex2) :
    ((bounds.map (columnHeight centerIndex2 (centerIndex2 - d))).getD · 0) =
      rowHeight bounds d := by
  funext index
  rw [rowHeight, List.getD_eq_getElem?_getD, List.getElem?_map]
  cases bounds[index]? with
  | none => rfl
  | some bounds2 =>
    simp only [Option.map_some, Option.getD_some, Option.elim_some, columnHeight]
    split_ifs <;> omega

theorem le_rowHeight (hlevel : 0 < level) (h : level ≤ rowHeight bounds d index) :
    ∃ bounds2, bounds[index]? = some bounds2 ∧ d ≤ bounds2.min ∧ level ≤ bounds2.max + 1 + d := by
  rw [rowHeight] at h
  cases hbounds : bounds[index]? with
  | none =>
    rw [hbounds, Option.elim_none] at h
    omega
  | some bounds2 =>
    rw [hbounds, Option.elim_some] at h
    split_ifs at h with hd
    · exact ⟨bounds2, rfl, hd, h⟩
    · omega

variable {test : BlockPos → Bool} {center : BlockPos} {axis1 axis2 : Axis}
  {limit1 limit2 left right : ℕ} {atCenter : IntBounds}
  (hscan : Scanned test center axis1 axis2 limit1 limit2 left right atCenter)

include hscan

/-- Toward the center the columns of a row only get higher. -/
theorem Scanned.rowHeight_le (d : ℕ) {index' : ℕ}
    (hbetween : (index ≤ index' ∧ index' ≤ left) ∨ (left ≤ index' ∧ index' ≤ index)) :
    rowHeight (boundsByAxis1 test center axis1 axis2 left right atCenter) d index ≤
      rowHeight (boundsByAxis1 test center axis1 axis2 left right atCenter) d index' := by
  refine Nat.le_of_not_lt fun hlt => ?_
  obtain ⟨bounds, hbounds, hd, hlevel⟩ := le_rowHeight (Nat.zero_lt_of_lt hlt) le_rfl
  have hindex := (List.getElem?_eq_some_iff.mp hbounds).1
  rw [length_boundsByAxis1] at hindex
  have hindex' : index' < left + 1 + right := by omega
  obtain ⟨bounds', hbounds'⟩ := exists_boundsByAxis1 atCenter hindex'
  have hmin : bounds.min ≤ bounds'.min := hscan.toward_le_toward false hbounds hbounds' hbetween
  have hmax : bounds.max ≤ bounds'.max := hscan.toward_le_toward true hbounds hbounds' hbetween
  rw [rowHeight, rowHeight, hbounds, hbounds', Option.elim_some, Option.elim_some, if_pos hd,
    if_pos (hd.trans hmin)] at hlt
  omega

theorem Scanned.passes_of_fits {start stop : ℕ} (hstop : stop ≤ left + 1 + right)
    (hlevel : 0 < level)
    (hfits : Histogram.Fits
      (rowHeight (boundsByAxis1 test center axis1 axis2 left right atCenter) d) start stop level)
    {a b : Int} (hstart : start - left ≤ a) (hend : a < stop - left)
    (hlow : -d ≤ b) (hhigh : b < level - d) :
    test (center.onPlane axis1 axis2 a b) = true := by
  obtain ⟨bounds, hbounds, hd, hmax⟩ :=
    le_rowHeight hlevel (hfits (a + left).toNat (by omega) (by omega))
  rcases lt_trichotomy b 0 with hneg | rfl | hpos
  · have hreaches := ((hscan.le_toward_iff false hbounds).mp hd).2 a (by omega)
    have := hreaches b.natAbs (by omega) (by omega)
    rwa [side, if_neg Bool.false_ne_true, show -1 * (b.natAbs : Int) = b by omega] at this
  · exact hscan.passes_of_mem (by omega) (by omega)
  · have hreaches := ((hscan.le_toward_iff true hbounds).mp le_rfl).2 a (by omega)
    have := hreaches b.natAbs (by omega) (by simp only [IntBounds.toward, if_true]; omega)
    rwa [side, if_pos rfl, show 1 * (b.natAbs : Int) = b by omega] at this

theorem Scanned.fits_of_passes {l r u : ℕ} (hl : l ≤ limit1) (hr : r ≤ limit1)
    (hd : d ≤ limit2) (hu : u ≤ limit2)
    (hall : ∀ a b : Int, -l ≤ a → a ≤ r → -d ≤ b → b ≤ u →
      test (center.onPlane axis1 axis2 a b) = true) :
    l ≤ left ∧ r ≤ right ∧ d ≤ atCenter.min ∧
      Histogram.Fits (rowHeight (boundsByAxis1 test center axis1 axis2 left right atCenter) d)
        (left - l) (left + r + 1) (u + 1 + d) := by
  have hleft : l ≤ left := (hscan.le_left_iff l).mpr
    ⟨hl, fun k _ hk => hall (-1 * k) 0 (by omega) (by omega) (by omega) (by omega)⟩
  have hright : r ≤ right := (hscan.le_right_iff r).mpr
    ⟨hr, fun k _ hk => hall (1 * k) 0 (by omega) (by omega) (by omega) (by omega)⟩
  have hdown : ∀ a : Int, -l ≤ a → a ≤ r → Reaches test center axis1 axis2 a false d :=
    fun a ha ha' k _ hk => hall a (-1 * k) ha ha' (by omega) (by omega)
  have hup : ∀ a : Int, -l ≤ a → a ≤ r → Reaches test center axis1 axis2 a true u :=
    fun a ha ha' k _ hk => hall a (1 * k) ha ha' (by omega) (by omega)
  refine ⟨hleft, hright,
    (hscan.le_atCenter_iff false d).mpr ⟨hd, hdown 0 (by omega) (by omega)⟩, ?_⟩
  intro index hstart hstop
  have hindex : index < left + 1 + right := by omega
  obtain ⟨bounds, hbounds⟩ := exists_boundsByAxis1 atCenter hindex
  have hmin : d ≤ bounds.min := (hscan.le_toward_iff false hbounds).mpr
    ⟨hd, fun a ha => hdown a (by omega) (by omega)⟩
  have hmax : u ≤ bounds.max := (hscan.le_toward_iff true hbounds).mpr
    ⟨hu, fun a ha => hup a (by omega) (by omega)⟩
  rw [rowHeight, hbounds, Option.elim_some, if_pos hmin]
  omega

/-- The largest rectangle of a row spans the center and is not exceeded. -/
theorem Scanned.rowRectangle_spec (hd : d ≤ atCenter.min) {row : RowRectangle}
    (hrow : row = rowRectangle (boundsByAxis1 test center axis1 axis2 left right atCenter)
      atCenter.min (atCenter.min - d)) :
    (row.minAxis1 ≤ left ∧ left < row.minAxis1 + row.sizeAxis1 ∧
        row.minAxis1 + row.sizeAxis1 ≤ left + 1 + right ∧ d < row.sizeAxis2 ∧
        Histogram.Fits (rowHeight (boundsByAxis1 test center axis1 axis2 left right atCenter) d)
          row.minAxis1 (row.minAxis1 + row.sizeAxis1) row.sizeAxis2) ∧
      ∀ start stop level, stop ≤ left + 1 + right →
        Histogram.Fits (rowHeight (boundsByAxis1 test center axis1 axis2 left right atCenter) d)
          start stop level → level * (stop - start) ≤ row.area := by
  have hlargest := getMaxRectangleLocation_isLargest
    ((boundsByAxis1 test center axis1 axis2 left right atCenter).map
      (columnHeight atCenter.min (atCenter.min - d)))
  rw [getD_map_columnHeight hd, List.length_map, length_boundsByAxis1] at hlargest
  have hleft : left < left + 1 + right := by omega
  obtain ⟨bounds, hbounds⟩ := exists_boundsByAxis1 atCenter hleft
  have hcenter : d + 1 ≤
      rowHeight (boundsByAxis1 test center axis1 axis2 left right atCenter) d left := by
    have hmin : d ≤ bounds.min := by
      refine (le_boundsByAxis1_iff hscan.inRange false hbounds).mpr ⟨hd, ?_⟩
      intro a ha
      omega
    rw [rowHeight, hbounds, Option.elim_some, if_pos hmin]
    omega
  obtain ⟨hstart, hstop⟩ := hlargest.contains_peak (by omega) (by omega)
    (fun i j hij hj => hscan.rowHeight_le d (.inl ⟨hij, hj⟩))
    (fun i j hj hij => hscan.rowHeight_le d (.inr ⟨hj, hij⟩))
  obtain ⟨hlevel, _⟩ := hlargest.pos (by omega) (Nat.zero_lt_of_lt hcenter)
  have htall : d + 1 ≤ _ := hlargest.le_level (by omega) fun i hi hi' => by
    obtain ⟨bounds2, hbounds2, hd2, _⟩ := le_rowHeight hlevel (hlargest.fits i hi hi')
    rw [rowHeight, hbounds2, Option.elim_some, if_pos hd2]
    omega
  subst hrow
  simp only [rowRectangle, RowRectangle.area]
  rw [Nat.add_sub_cancel' (by omega), Nat.mul_comm]
  exact ⟨⟨hstart, hstop, hlargest.stop_le, htall, hlargest.fits⟩, hlargest.area_le⟩

end Rows

theorem foldl_keepRow (bounds : List IntBounds) (centerIndex2 : ℕ) (rows : List ℕ)
    (best : RowRectangle) :
    best.area ≤ (rows.foldl (keepRow bounds centerIndex2) best).area ∧
      (∀ i2 ∈ rows, (rowRectangle bounds centerIndex2 i2).area ≤
        (rows.foldl (keepRow bounds centerIndex2) best).area) ∧
      (rows.foldl (keepRow bounds centerIndex2) best = best ∨
        ∃ i2 ∈ rows, rows.foldl (keepRow bounds centerIndex2) best =
          rowRectangle bounds centerIndex2 i2) := by
  induction rows generalizing best with
  | nil => exact ⟨le_rfl, by simp, .inl rfl⟩
  | cons i2 rows ih =>
    obtain ⟨hbest, hrows, hfound⟩ := ih (keepRow bounds centerIndex2 best i2)
    rw [List.foldl_cons]
    have hkept : best.area ≤ (keepRow bounds centerIndex2 best i2).area ∧
        (rowRectangle bounds centerIndex2 i2).area ≤
          (keepRow bounds centerIndex2 best i2).area ∧
        (keepRow bounds centerIndex2 best i2 = best ∨
          keepRow bounds centerIndex2 best i2 = rowRectangle bounds centerIndex2 i2) := by
      rw [keepRow]
      split
      · rename_i hlarger
        exact ⟨hlarger.le, le_rfl, .inr rfl⟩
      · rename_i hlarger
        exact ⟨le_rfl, not_lt.mp hlarger, .inl rfl⟩
    obtain ⟨hbefore, hrow, hchoice⟩ := hkept
    refine ⟨hbefore.trans hbest, List.forall_mem_cons.mpr ⟨hrow.trans hbest, hrows⟩, ?_⟩
    rcases hfound with hsame | ⟨j, hj, hrow⟩
    · rw [hsame]
      exact hchoice.imp_right fun h => ⟨i2, List.mem_cons_self, h⟩
    · exact .inr ⟨j, List.mem_cons_of_mem _ hj, hrow⟩

namespace FoundRectangle

def area (rectangle : FoundRectangle) : ℕ :=
  rectangle.axis1Size * rectangle.axis2Size

def positions (axis1 axis2 : Axis) (rectangle : FoundRectangle) : Set BlockPos :=
  {pos | ∃ i < rectangle.axis1Size, ∃ j < rectangle.axis2Size,
    pos = rectangle.minCorner.onPlane axis1 axis2 i j}

def InRange (rectangle : FoundRectangle) : Prop :=
  rectangle.minCorner.InRange ∧ rectangle.axis1Size < 2147483648 ∧
    rectangle.axis2Size < 2147483648

/-- The rectangles among which the largest is sought. -/
structure Around (center : BlockPos) (axis1 : Axis) (limit1 : Int) (axis2 : Axis) (limit2 : Int)
    (test : BlockPos → Bool) (rectangle : FoundRectangle) : Prop where
  inRange : rectangle.InRange
  center_mem : center ∈ rectangle.positions axis1 axis2
  within : ∀ pos ∈ rectangle.positions axis1 axis2, ∃ a b : Int, a.natAbs ≤ limit1 ∧
    b.natAbs ≤ limit2 ∧ pos = center.onPlane axis1 axis2 a b
  passes : ∀ pos ∈ rectangle.positions axis1 axis2, test pos = true

variable {center : BlockPos} {axis1 axis2 : Axis} {limit1 limit2 : Int} {test : BlockPos → Bool}
  {rectangle : FoundRectangle}

/-- A rectangle around the center in steps from it. -/
theorem Around.exists_steps (h : rectangle.Around center axis1 limit1 axis2 limit2 test)
    (hne : axis1 ≠ axis2) (hlimit1 : limit1 < 2147483648) (hlimit2 : limit2 < 2147483648) :
    ∃ l r d u : ℕ, l ≤ limit1.toNat ∧ r ≤ limit1.toNat ∧
      d ≤ limit2.toNat ∧ u ≤ limit2.toNat ∧ rectangle.area = (u + 1 + d) * (l + r + 1) ∧
      ∀ a b : Int, -l ≤ a → a ≤ r → -d ≤ b → b ≤ u →
        test (center.onPlane axis1 axis2 a b) = true := by
  obtain ⟨hcorner, hsize1, hsize2⟩ := h.inRange
  obtain ⟨l, hl, d, hd, hcenter⟩ := h.center_mem
  have hrange : center.InRange := hcenter ▸ hcorner.onPlane axis1 axis2 l d
  have hmem : ∀ a b : Int, -l ≤ a → a < rectangle.axis1Size - l → -d ≤ b →
      b < rectangle.axis2Size - d →
      center.onPlane axis1 axis2 a b ∈ rectangle.positions axis1 axis2 := by
    intro a b ha ha' hb hb'
    refine ⟨(l + a).toNat, by omega, (d + b).toNat, by omega, ?_⟩
    rw [hcenter, BlockPos.onPlane_onPlane hcorner, Int.toNat_of_nonneg (by omega),
      Int.toNat_of_nonneg (by omega)]
  have hnear : ∀ a b : Int, -l ≤ a → a < rectangle.axis1Size - l → -d ≤ b →
      b < rectangle.axis2Size - d → a.natAbs ≤ limit1 ∧ b.natAbs ≤ limit2 := by
    intro a b ha ha' hb hb'
    obtain ⟨a', b', hnear1, hnear2, heq⟩ := h.within _ (hmem a b ha ha' hb hb')
    obtain ⟨rfl, rfl⟩ := BlockPos.onPlane_inj hrange hne (by omega) (by omega) heq
    exact ⟨hnear1, hnear2⟩
  have hlow := hnear (-l) (-d) le_rfl (by omega) le_rfl (by omega)
  have hhigh := hnear (rectangle.axis1Size - l - 1) (rectangle.axis2Size - d - 1)
    (by omega) (by omega) (by omega) (by omega)
  refine ⟨l, rectangle.axis1Size - l - 1, d, rectangle.axis2Size - d - 1, by omega, by omega,
    by omega, by omega, ?_, ?_⟩
  · rw [area, Nat.mul_comm, show rectangle.axis2Size - d - 1 + 1 + d = rectangle.axis2Size by omega,
      show l + (rectangle.axis1Size - l - 1) + 1 = rectangle.axis1Size by omega]
  · intro a b ha ha' hb hb'
    exact h.passes _ (hmem a b ha (by omega) hb (by omega))

theorem around_of_steps (hcenter : center.InRange) (hlimit1 : 2 * limit1 + 1 < 2147483648)
    (hlimit2 : 2 * limit2 + 1 < 2147483648) {a b : Int} {axis1Size axis2Size : ℕ}
    (ha : -limit1 ≤ a) (ha0 : a ≤ 0)
    (ha' : 0 < a + axis1Size) (ha'' : a + axis1Size - 1 ≤ limit1) (hb : -limit2 ≤ b) (hb0 : b ≤ 0)
    (hb' : 0 < b + axis2Size) (hb'' : b + axis2Size - 1 ≤ limit2)
    (hall : ∀ a' b' : Int, a ≤ a' → a' < a + axis1Size → b ≤ b' → b' < b + axis2Size →
      test (center.onPlane axis1 axis2 a' b') = true) :
    (FoundRectangle.mk (center.onPlane axis1 axis2 a b) axis1Size axis2Size).Around center axis1
      limit1 axis2 limit2 test where
  inRange := ⟨hcenter.onPlane axis1 axis2 a b, by dsimp only; omega, by dsimp only; omega⟩
  center_mem := by
    refine ⟨(-a).toNat, by dsimp only; omega, (-b).toNat, by dsimp only; omega, ?_⟩
    rw [BlockPos.onPlane_onPlane hcenter, Int.toNat_of_nonneg (by omega),
      Int.toNat_of_nonneg (by omega), Int.add_right_neg, Int.add_right_neg,
      BlockPos.onPlane_zero]
  within := by
    rintro _ ⟨i, hi, j, hj, rfl⟩
    dsimp only at hi hj
    refine ⟨a + i, b + j, by omega, by omega, ?_⟩
    rw [BlockPos.onPlane_onPlane hcenter]
  passes := by
    rintro _ ⟨i, hi, j, hj, rfl⟩
    dsimp only at hi hj
    rw [BlockPos.onPlane_onPlane hcenter]
    exact hall _ _ (by omega) (by omega) (by omega) (by omega)

end FoundRectangle

section Around

variable {center : BlockPos} {axis1 axis2 : Axis} {limit1 limit2 : Int} {test : BlockPos → Bool}
  {left right : ℕ} {atCenter : IntBounds}
  (hscan : Scanned test center axis1 axis2 limit1.toNat limit2.toNat left right atCenter)

include hscan

theorem Scanned.around_row {d : ℕ} (hlimit1 : 0 ≤ limit1) (hlimit2 : 0 ≤ limit2)
    (hsize1 : 2 * limit1 + 1 < 2147483648) (hsize2 : 2 * limit2 + 1 < 2147483648)
    (hd : d ≤ atCenter.min) {row : RowRectangle}
    (hrow : row = rowRectangle (boundsByAxis1 test center axis1 axis2 left right atCenter)
      atCenter.min (atCenter.min - d)) :
    (FoundRectangle.mk
      (center.onPlane axis1 axis2 (row.minAxis1 - left) (row.minAxis2 - atCenter.min))
      row.sizeAxis1 row.sizeAxis2).Around center axis1 limit1 axis2 limit2 test := by
  have hlow : (row.minAxis2 : Int) - atCenter.min = -d := by
    rw [hrow, rowRectangle]
    dsimp only
    omega
  obtain ⟨⟨hstart, hstop, hwidth, htall, hfits⟩, _⟩ := hscan.rowRectangle_spec hd hrow
  have hleft := ((hscan.le_left_iff left).mp le_rfl).1
  have hright := ((hscan.le_right_iff right).mp le_rfl).1
  have hdown : d ≤ limit2.toNat := ((hscan.le_atCenter_iff false d).mp hd).1
  obtain ⟨bounds, hbounds, _, hlevel⟩ := le_rowHeight (by omega) (hfits left hstart hstop)
  have hup : bounds.max ≤ limit2.toNat := ((hscan.le_toward_iff true hbounds).mp le_rfl).1
  rw [hlow]
  refine FoundRectangle.around_of_steps hscan.inRange hsize1 hsize2 (by omega) (by omega)
    (by omega) (by omega) (by omega) (by omega) (by omega) (by omega) ?_
  intro a b ha ha' hb hb'
  exact hscan.passes_of_fits hwidth (by omega) hfits (by omega) (by omega) (by omega) (by omega)

theorem Scanned.area_le {other : FoundRectangle} (hne : axis1 ≠ axis2)
    (hlimit1 : limit1 < 2147483648) (hlimit2 : limit2 < 2147483648)
    (hother : other.Around center axis1 limit1 axis2 limit2 test) :
    ∃ d ≤ atCenter.min, other.area ≤
      (rowRectangle (boundsByAxis1 test center axis1 axis2 left right atCenter) atCenter.min
        (atCenter.min - d)).area := by
  obtain ⟨l, r, d, u, hl, hr, hd, hu, harea, hall⟩ := hother.exists_steps hne hlimit1 hlimit2
  obtain ⟨hleft, hright, hdown, hfits⟩ := hscan.fits_of_passes hl hr hd hu hall
  refine ⟨d, hdown, ?_⟩
  have hrow := (hscan.rowRectangle_spec hdown rfl).2 _ _ _ (by omega) hfits
  rwa [show left + r + 1 - (left - l) = l + r + 1 by omega, ← harea] at hrow

/-- The rows are tried from the center down, and the rectangle kept is the best of one of them. -/
theorem Scanned.exists_row {best : RowRectangle}
    (hbest : best = (List.range (atCenter.min + 1)).reverse.foldl
      (keepRow (boundsByAxis1 test center axis1 axis2 left right atCenter) atCenter.min)
      { minAxis1 := 0, minAxis2 := 0, sizeAxis1 := 0, sizeAxis2 := 0 }) :
    (∀ d ≤ atCenter.min, (rowRectangle
      (boundsByAxis1 test center axis1 axis2 left right atCenter) atCenter.min
      (atCenter.min - d)).area ≤ best.area) ∧
      ∃ d ≤ atCenter.min, best = rowRectangle
        (boundsByAxis1 test center axis1 axis2 left right atCenter) atCenter.min
        (atCenter.min - d) := by
  obtain ⟨_, hrows, hfound⟩ := foldl_keepRow
    (boundsByAxis1 test center axis1 axis2 left right atCenter) atCenter.min
    (List.range (atCenter.min + 1)).reverse
    { minAxis1 := 0, minAxis2 := 0, sizeAxis1 := 0, sizeAxis2 := 0 }
  rw [← hbest] at hrows hfound
  have hlarge : ∀ d ≤ atCenter.min, (rowRectangle
      (boundsByAxis1 test center axis1 axis2 left right atCenter) atCenter.min
      (atCenter.min - d)).area ≤ best.area := by
    intro d hd
    exact hrows _ (by rw [List.mem_reverse, List.mem_range]; omega)
  refine ⟨hlarge, ?_⟩
  rcases hfound with hinitial | ⟨i2, hi2, hrow⟩
  · -- the row of the center alone has a rectangle of positive area
    have hrow := hlarge 0 (Nat.zero_le _)
    rw [hinitial] at hrow
    obtain ⟨⟨hstart, hstop, _, htall, _⟩, _⟩ := hscan.rowRectangle_spec (Nat.zero_le _) rfl
    have hpositive := Nat.mul_pos (Nat.pos_of_lt_add_right (hstart.trans_lt hstop)) htall
    exact absurd hrow (Nat.not_le.mpr hpositive)
  · rw [List.mem_reverse, List.mem_range] at hi2
    exact ⟨atCenter.min - i2, Nat.sub_le _ _, by rwa [Nat.sub_sub_self (by omega)]⟩

end Around

/-- The scan returns a rectangle around the center, and no other one around it is larger. The area
that the limits allow is in the range of the machine type, so that no product of sizes wraps. -/
theorem getLargestRectangleAround_isLargest {center : BlockPos} {axis1 axis2 : Axis}
    {limit1 limit2 : Int} {test : BlockPos → Bool} (hne : axis1 ≠ axis2) (hlimit1 : 0 ≤ limit1)
    (hlimit2 : 0 ≤ limit2) (harea : (2 * limit1 + 1) * (2 * limit2 + 1) < 2147483648)
    (hrange : center.InRange) (hcenter : test center = true) :
    ∃ rectangle,
      getLargestRectangleAround center axis1 limit1 axis2 limit2 test = some rectangle ∧
      rectangle.Around center axis1 limit1 axis2 limit2 test ∧
      ∀ other : FoundRectangle, other.Around center axis1 limit1 axis2 limit2 test →
        other.area ≤ rectangle.area := by
  have hscan : Scanned test center axis1 axis2 limit1.toNat limit2.toNat _ _ _ :=
    .of_getLimit hrange hcenter
  have hsize1 : (2 * limit1 + 1) * 1 < 2147483648 :=
    (Int.mul_le_mul_of_nonneg_left (by omega) (by omega)).trans_lt harea
  have hsize2 : 1 * (2 * limit2 + 1) < 2147483648 :=
    (Int.mul_le_mul_of_nonneg_right (by omega) (by omega)).trans_lt harea
  obtain ⟨hlarge, d, hd, hbest⟩ := hscan.exists_row rfl
  refine ⟨_, if_pos ⟨hlimit1, hlimit2⟩, ?_, ?_⟩
  · exact hscan.around_row hlimit1 hlimit2 (by omega) (by omega) hd hbest
  · intro other hother
    obtain ⟨d', hd', harea⟩ := hscan.area_le hne (by omega) (by omega) hother
    exact harea.trans (hlarge d' hd')

theorem getLargestRectangleAround_isLargest_corner : ∃ rectangle,
    getLargestRectangleAround { x := 0, y := 64, z := 0 } .x 21 .y 21
      (fun pos => decide (0 ≤ pos.x ∧ 64 ≤ pos.y)) = some rectangle ∧
    rectangle.Around { x := 0, y := 64, z := 0 } .x 21 .y 21
      (fun pos => decide (0 ≤ pos.x ∧ 64 ≤ pos.y)) ∧
    ∀ other : FoundRectangle, other.Around { x := 0, y := 64, z := 0 } .x 21 .y 21
      (fun pos => decide (0 ≤ pos.x ∧ 64 ≤ pos.y)) → other.area ≤ rectangle.area :=
  getLargestRectangleAround_isLargest (by decide) (by decide) (by decide) (by decide)
    ⟨by decide, by decide, by decide⟩ (by decide)

end BlockUtil

end Steel
