import ChangeImpact.Risk.Factor

/-!
# Risk assessments

The risk of a change set is the weighted mean of its factors' scores, rounded to an integer with a
half going up. The sums are exact sums, rounded once.
-/

namespace ChangeImpact

/-- Levels of risk. -/
inductive RiskLevel
  | low
  | medium
  | high
  | critical
  deriving DecidableEq, Repr

namespace RiskLevel

/-- The level as reports write it. -/
def name : RiskLevel → String
  | low => "low"
  | medium => "medium"
  | high => "high"
  | critical => "critical"

/-- The level in capitals. -/
def capitals : RiskLevel → String
  | low => "LOW"
  | medium => "MEDIUM"
  | high => "HIGH"
  | critical => "CRITICAL"

/-- All levels. -/
def all : List RiskLevel := [low, medium, high, critical]

/-- The level of a score. -/
def ofScore (score : Int) : RiskLevel :=
  if score ≤ 25 then low else if score ≤ 50 then medium else if score ≤ 75 then high else critical

end RiskLevel

/-- The integer nearest to a number, a half going up; the half is added with rounding. -/
def roundHalfUp (x : Binary64) : Int := (x.add (Binary64.ofRat (mkRat 1 2))).floor

/-- The risk of a change set. -/
structure RiskAssessment where
  score : Nat
  level : RiskLevel
  factors : List RiskFactor := []
  deriving DecidableEq

namespace RiskAssessment

/-- The six factors of a change set, if they can be written. -/
def factorsOf? (changed : List ChangedFile) (breaking : List BreakingChange)
    (coverage : CoverageReport) (staleness : StalenessReport) (impact : ImpactGraph) :
    Option (List RiskFactor) :=
  (RiskFactor.diffSize? changed).map fun diffSize =>
    [.breaking breaking, .untested coverage, diffSize, .staleDocs staleness,
      .configChanges changed, .impactBreadth impact]

/-- The weighted mean of some factors' scores, rounded to an integer. -/
def weightedScore (factors : List RiskFactor) : Int :=
  roundHalfUp ((Binary64.sum (factors.map fun f => f.score.mul f.weight)).div
    (Binary64.sum (factors.map (·.weight))))

/-- The assessment that some factors lead to. -/
def ofFactors (factors : List RiskFactor) : RiskAssessment :=
  let score := weightedScore factors
  ⟨score.toNat, .ofScore score, factors⟩

/-- The risk of a change set, if its factors can be written. -/
def ofChanges? (changed : List ChangedFile) (breaking : List BreakingChange)
    (coverage : CoverageReport) (staleness : StalenessReport) (impact : ImpactGraph) :
    Option RiskAssessment :=
  (factorsOf? changed breaking coverage staleness impact).map ofFactors

end RiskAssessment

end ChangeImpact
