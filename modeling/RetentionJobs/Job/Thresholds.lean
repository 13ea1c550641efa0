/-! The safety floors of a job: a retention window and a batch size below them are raised. -/
namespace RetentionJobs.Job

structure Thresholds where
  minDays : Int := 60
  minLimit : Int := 100
  deriving DecidableEq, Repr

def clamp (value minimum : Int) : Int := max value minimum

theorem le_clamp (value minimum : Int) : minimum ≤ clamp value minimum := Int.le_max_right ..

theorem clamp_of_le {value minimum : Int} (h : minimum ≤ value) : clamp value minimum = value :=
  Int.max_eq_left h

structure Clamped where
  requested : Option Int
  applied : Int
  deriving DecidableEq, Repr

def Clamped.raised (c : Clamped) : Bool := c.requested ≠ some c.applied

namespace Thresholds

/-- An absent limit becomes the minimum. -/
def limit (t : Thresholds) (requested : Option Int) : Clamped where
  requested
  applied := match requested with
    | none => t.minLimit
    | some n => clamp n t.minLimit

def days (t : Thresholds) (requested : Int) : Clamped where
  requested := some requested
  applied := clamp requested t.minDays

theorem minLimit_le_limit (t : Thresholds) (requested : Option Int) :
    t.minLimit ≤ (t.limit requested).applied := by
  cases requested with
  | none => exact Int.le_refl _
  | some n => exact le_clamp ..

theorem minDays_le_days (t : Thresholds) (requested : Int) :
    t.minDays ≤ (t.days requested).applied := le_clamp ..

end Thresholds

/-- A number of the job that was raised, named by its place in the request. -/
structure Adjustment where
  field : String
  requested : Option Int
  applied : Int
  deriving DecidableEq, Repr

def Clamped.adjustment? (c : Clamped) (field : String) : Option Adjustment :=
  if c.raised then some ⟨field, c.requested, c.applied⟩ else none

end RetentionJobs.Job
