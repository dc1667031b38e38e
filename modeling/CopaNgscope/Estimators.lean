import Mathlib.Algebra.Order.Ring.Rat

/-! The estimators of `estimators.hh` and `estimators.cc` that Copa updates. Doubles are exact
rationals. -/
namespace CopaNgscope

structure PlainEwma where
  ewma : ℚ
  alpha : ℚ
  valid : Bool
deriving DecidableEq

def plainEwma (alpha : ℚ) : PlainEwma := ⟨0, alpha, false⟩

def PlainEwma.forceSet (e : PlainEwma) (value : ℚ) : PlainEwma :=
  { e with valid := true, ewma := value }

def PlainEwma.update (e : PlainEwma) (value : ℚ) : PlainEwma :=
  { e with valid := true, ewma := e.alpha*value+(1-e.alpha)*e.ewma }

/-- The flag `valid` survives. -/
def PlainEwma.reset (e : PlainEwma) : PlainEwma := { e with ewma := 0 }

structure Percentile where
  percentile : ℚ
  window : List ℚ
deriving DecidableEq

def Percentile.windowLen : ℕ := 100

def Percentile.push (p : Percentile) (val : ℚ) : Percentile :=
  let window := p.window ++ [val]
  { p with window := if Percentile.windowLen < window.length then window.tail else window }

def Percentile.reset (p : Percentile) : Percentile := { p with window := [] }

structure ReduceOnLoss where
  numLost : ℕ
  numPkts : ℕ
  prevWinTime : ℚ
deriving DecidableEq

def reduceOnLoss : ReduceOnLoss := ⟨0, 0, 0⟩

/-- The estimator, and whether the loss rate of the window just ended is high. -/
def ReduceOnLoss.update (r : ReduceOnLoss) (loss : Bool) (curTime rtt : ℚ) : ReduceOnLoss × Bool :=
  let numLost := if loss then r.numLost+1 else r.numLost
  let numPkts := r.numPkts+1
  if r.prevWinTime+2*rtt < curTime ∧ 20 < numPkts then
    (⟨0, 0, curTime⟩, 3/10 < (numLost:ℚ)/numPkts)
  else (⟨numLost, numPkts, r.prevWinTime⟩, false)

structure IsUniformDistr where
  windowLen : ℕ
  window : List ℚ
  sum : ℚ
deriving DecidableEq

def isUniformDistr (windowLen : ℕ) : IsUniformDistr := ⟨windowLen, [], 0⟩

def IsUniformDistr.update (d : IsUniformDistr) (data : ℚ) : IsUniformDistr :=
  let window := d.window ++ [data]
  let sum := d.sum+data
  if d.windowLen < window.length then { d with window := window.tail, sum := sum-window.headD 0 }
  else { d with window := window, sum := sum }

def IsUniformDistr.reset (d : IsUniformDistr) : IsUniformDistr := { d with window := [], sum := 0 }

end CopaNgscope
