import Wiretap.Knowledge.Saturation
import Wiretap.Report.Classification

/-! The report of an analysis: what each principal knows, and whether the adversary knows what
must not leak. -/

namespace Wiretap

/-- What a principal knows, by kind. -/
structure Profile extends Classification where
  name : String
deriving DecidableEq, Repr

/-- Whether a profile is that of the adversary. -/
def Profile.isAdversary (p : Profile) : Bool :=
  p.name = adversary

/-- The terms that leaked. -/
structure Verdict where
  leaked : List String
deriving DecidableEq, Repr

namespace Verdict

/-- Whether something leaked. -/
def isCatastrophic (v : Verdict) : Bool :=
  !v.leaked.isEmpty

/-- The verdict in words. -/
def summary (v : Verdict) : String :=
  if v.isCatastrophic then "Potentially catastrophic leak detected."
  else "No catastrophic leaks detected under this simple model."

end Verdict

/-- Profiles and verdict. -/
structure Report where
  profiles : List Profile
  verdict : Verdict
deriving DecidableEq, Repr

/-- The first profile with a given name. -/
def Report.profile? (r : Report) (name : String) : Option Profile :=
  r.profiles.find? (·.name = name)

/-- The verdict on what a principal knows. -/
def Profile.judge (p : Profile) (naming : Naming) : Verdict :=
  ⟨(p.secrets ++ p.plaintext).filter naming.isCatastrophic⟩

/-- The profile of a principal with a given view. -/
def View.profile (v : View) (table : KeyTable) (constructed : List String) : Profile :=
  { classify v.knows table constructed with name := v.name }

/-- The profiles with that of the adversary last. -/
def adversaryLast (profiles : List Profile) : List Profile :=
  profiles.filter (!·.isAdversary) ++ profiles.filter (·.isAdversary)

/-- The report on a state of knowledge. -/
def Knowledge.report (k : Knowledge) (p : Protocol) (naming : Naming) : Report :=
  let profiles := adversaryLast (k.views.map (·.profile p.keyTable p.constructed))
  { profiles
    verdict := ((profiles.getLast?.map (·.judge naming)).getD ⟨[]⟩) }

/-- A report with the events that led to it. -/
structure Analysis where
  report : Report
  events : List Event

/-- The report on a protocol. -/
def Protocol.analyze (p : Protocol) (naming : Naming) : Except Fault Analysis :=
  let derived := p.derive naming .byText
  match derived.fault with
  | some f => .error f
  | none =>
    let report := derived.state.report p naming
    .ok {
      report
      events := derived.events ++
        [.analysed report.profiles.length derived.state.rounds report.verdict.leaked] }

end Wiretap
