import Mathlib.Algebra.Order.Ring.Rat
import Mathlib.Data.List.DropRight

/-! The windows of `rtt-window.cc`: the least or largest RTT of the recent past, and the four such
trackers that Copa works with. Doubles are exact rationals. -/
namespace CopaNgscope

/-- `numeric_limits<double>::max()`. -/
def dblMax : ℚ := (2^53-1)*2^971

/-- `numeric_limits<double>::min()`, the smallest positive normal number. -/
def dblMin : ℚ := 1/2^1022

structure ExtremeWindow where
  findMin : Bool
  maxTime : ℚ
  vals : List (ℚ × ℚ)
  extreme : ℚ
deriving DecidableEq

def extremeWindow (findMin : Bool) : ExtremeWindow :=
  ⟨findMin, 10000, [], if findMin then dblMax else dblMin⟩

/-- The loop of `clear_old_hist`: the samples that stay, and whether the extreme is to be
recomputed. -/
def dropOldHist (findMin : Bool) (limit extreme : ℚ) :
    List (ℚ × ℚ) → Bool → List (ℚ × ℚ) × Bool
  | v :: u :: vals, recompute =>
    if v.1 < limit then
      dropOldHist findMin limit extreme (u :: vals)
        (recompute || (if findMin then v.2 ≤ extreme else extreme ≤ v.2))
    else (v :: u :: vals, recompute)
  | vals, recompute => (vals, recompute)

def ExtremeWindow.clearOldHist (w : ExtremeWindow) (now : ℚ) : ExtremeWindow :=
  let r := dropOldHist w.findMin (now-w.maxTime) w.extreme w.vals false
  { w with
    vals := r.1
    extreme := if r.2 then (r.1.headD (0, w.extreme)).2 else w.extreme }

def ExtremeWindow.newSample (w : ExtremeWindow) (val now : ℚ) : ExtremeWindow :=
  let vals := w.vals.rdropWhile (fun v => if w.findMin then val < v.2 else v.2 < val)
  let better := if w.findMin then val < w.extreme else w.extreme < val
  ExtremeWindow.clearOldHist
    { w with vals := vals ++ [(now, val)], extreme := if better then val else w.extreme } now

def ExtremeWindow.updateMaxTime (w : ExtremeWindow) (t : ℚ) : ExtremeWindow :=
  { w with maxTime := t }

structure RTTWindow where
  srtt : ℚ
  latestRtt : ℚ
  minRtt : ExtremeWindow
  unjitteredRtt : ExtremeWindow
  isCopaMin : ExtremeWindow
  isCopaMax : ExtremeWindow
deriving DecidableEq

def rttWindow : RTTWindow :=
  ⟨0, 0, extremeWindow true, extremeWindow true, extremeWindow true, extremeWindow false⟩

/-- `update_max_time` followed by `new_sample`. -/
def ExtremeWindow.update (w : ExtremeWindow) (maxTime rtt now : ℚ) : ExtremeWindow :=
  { w with maxTime := maxTime }.newSample rtt now

def RTTWindow.newRttSample (w : RTTWindow) (rtt now : ℚ) : RTTWindow :=
  let srtt := if w.srtt = 0 then rtt else w.srtt
  let srtt := 1/16*rtt+(1-1/16)*srtt
  let maxTime := max 10000 (20*w.minRtt.extreme)
  { srtt := srtt
    latestRtt := rtt
    minRtt := w.minRtt.update maxTime rtt now
    unjitteredRtt := w.unjitteredRtt.update (min maxTime (srtt*(1/2))) rtt now
    isCopaMin := w.isCopaMin.update (min maxTime (srtt*4)) rtt now
    isCopaMax := w.isCopaMax.update (min maxTime (srtt*4)) rtt now }

def ExtremeWindow.clear (w : ExtremeWindow) : ExtremeWindow := extremeWindow w.findMin

/-- The latest RTT survives. -/
def RTTWindow.clear (w : RTTWindow) : RTTWindow where
  srtt := 0
  latestRtt := w.latestRtt
  minRtt := w.minRtt.clear
  unjitteredRtt := w.unjitteredRtt.clear
  isCopaMin := w.isCopaMin.clear
  isCopaMax := w.isCopaMax.clear

def RTTWindow.getMinRtt (w : RTTWindow) : ℚ := w.minRtt.extreme

def RTTWindow.getUnjitteredRtt (w : RTTWindow) : ℚ := w.unjitteredRtt.extreme

def RTTWindow.getLatestRtt (w : RTTWindow) : ℚ := w.latestRtt

def RTTWindow.isCopa (w : RTTWindow) : Bool :=
  let threshold := w.minRtt.extreme+1/10*(w.isCopaMax.extreme-w.minRtt.extreme)
  w.isCopaMin.extreme < threshold

@[simp] theorem newRttSample_latestRtt (w : RTTWindow) (rtt now : ℚ) :
    (w.newRttSample rtt now).latestRtt = rtt := rfl

end CopaNgscope
