import Wiretap.Report.Basic

/-! The text of a report. -/

namespace Wiretap

/-- A line of fifty copies of a mark. -/
def rule (mark : Char) : String :=
  String.ofList (List.replicate 50 mark)

/-- The lines of one list of terms. -/
def bucketLines (title : String) (terms : List String) : List String :=
  (title ++ ":") ::
    ((if terms.isEmpty then ["  (none)"] else terms.map ("  - " ++ ·)) ++ [""])

namespace Profile

/-- The line of a profile in the list of principals. -/
def listLine (p : Profile) : String :=
  "  - " ++ p.name ++ (if p.isAdversary then " (Passive Eavesdropper)" else "")

/-- The lines of a profile. The lists of the adversary stand in another order. -/
def lines (p : Profile) : List String :=
  if p.isAdversary then
    [rule '-', "Adversary (Passive Eavesdropper)", rule '-'] ++
      bucketLines "Observed Messages / Objects" p.observed ++
      bucketLines "Secrets Learned" p.secrets ++
      bucketLines "Plaintext Learned" p.plaintext
  else
    [rule '-', p.name, rule '-'] ++
      bucketLines "Secrets Known" p.secrets ++
      bucketLines "Plaintext Data" p.plaintext ++
      bucketLines "Observed Crypto Objects" p.observed

end Profile

/-- The lines of a verdict. -/
def Verdict.lines (v : Verdict) : List String :=
  [rule '-', "SECURITY VERDICT", rule '-', v.summary] ++
    (if v.isCatastrophic then "Adversary learned:" :: v.leaked.map ("  - " ++ ·) else []) ++
    ["", rule '=']

/-- The lines of a report. -/
def Report.lines (r : Report) : List String :=
  [rule '=', "PROTOCOL KNOWLEDGE ANALYSIS", rule '=', "", "Principals:"] ++
    r.profiles.map (·.listLine) ++ [""] ++ r.profiles.flatMap (·.lines) ++ r.verdict.lines

/-- The text of a report. -/
def Report.format (r : Report) : String :=
  "\n".intercalate r.lines ++ "\n"

end Wiretap
