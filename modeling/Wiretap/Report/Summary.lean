import Wiretap.Json.Basic
import Wiretap.Report.Basic

/-! A report as a JSON value. -/

namespace Wiretap

/-- The three lists of a classification as members of an object. -/
def Classification.members (c : Classification) : List (String × Json) :=
  [("secrets", .strings c.secrets), ("plaintext", .strings c.plaintext),
   ("observed", .strings c.observed)]

/-- A profile as a JSON value. -/
def Profile.toJson (p : Profile) : Json :=
  .object (("name", .string p.name) :: p.toClassification.members)

/-- A verdict as a JSON value. -/
def Verdict.toJson (v : Verdict) : Json :=
  .object [("catastrophic", .bool v.isCatastrophic), ("summary", .string v.summary),
    ("leaked", .strings v.leaked)]

/-- A report as a JSON value. -/
def Report.toJson (r : Report) : Json :=
  .object [("principals", .array (r.profiles.map (·.toJson))), ("verdict", r.verdict.toJson)]

end Wiretap
