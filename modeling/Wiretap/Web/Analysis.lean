import Wiretap.Protocol.Summary
import Wiretap.Report.Rendering
import Wiretap.Report.Summary
import Wiretap.Signatures
import Wiretap.Source.Grammar
import Wiretap.Text.Space
import Wiretap.Web.Delivery

/-! What the web service does with what it is handed. It reads its naming convention when it first
needs one and keeps it. -/

namespace Wiretap

/-- What a service remembers: the convention that it has read. -/
structure Service where
  naming : Option Naming := none

/-- All results of an analysis. -/
structure Results extends PageResult where
  knowledge : Report
  protocol : Json

/-- The results as a JSON value. -/
def Results.toJson (r : Results) : Json :=
  .object [("report", .string r.report), ("knowledge", r.knowledge.toJson),
    ("warnings", .strings r.warnings), ("ast", .string r.ast), ("protocol", r.protocol),
    ("ok", .bool true)]

/-- The results of the analysis of a protocol. -/
def Protocol.results (p : Protocol) (naming : Naming) : Except Fault Results := do
  let report := (← p.analyze naming).report
  return {
    report := report.format
    warnings := p.warningLines
    ast := ← p.toNode.pretty 0
    knowledge := report
    protocol := ← p.toJson }

namespace Service

/-- The convention of the service, which is read now if it was not before. -/
def policy (s : Service) (disk : Disk) (environment : Option String) :
    Except LoadError (Naming × Service) :=
  match s.naming with
  | some naming => .ok (naming, s)
  | none =>
    match loadNaming disk environment none with
    | .ok loaded => .ok (loaded.naming, { s with naming := some loaded.naming })
    | .error e => .error e

/-- How the analysis of a protocol goes. -/
inductive Attempt where
  | done (results : Results)
  | noPolicy (message : String)
  | failed (cause : Failure)

/-- Analyses a protocol under the convention of the service. -/
def attempt (s : Service) (disk : Disk) (environment : Option String) (p : Protocol) :
    Service × Attempt :=
  match s.policy disk environment with
  | .error e =>
    (s, if e.isInFile then .noPolicy ("Cannot load naming policy: " ++ e.message)
      else .failed (.load e))
  | .ok (naming, s) =>
    match p.results naming with
    | .ok results => (s, .done results)
    | .error f => (s, .failed (.fault f))

/-- Answers a form. A field that is not there counts as empty. -/
def analyzeForm (s : Service) (disk : Disk) (environment : Option String)
    (field : Option String) : Service × Reply :=
  let source := field.getD ""
  if Text.isBlank source then (s, .ok (.badRequest "Missing protocol source"))
  else if maxSourceLength < source.length then
    (s, .ok (.tooLarge
      ("Protocol source longer than " ++ toString maxSourceLength ++ " characters")))
  else
    match Protocol.parse source with
    | .error d => (s, .ok (.page 400 { source, error := some d.message }))
    | .ok p =>
      match s.attempt disk environment p with
      | (s, .done results) =>
        (s, .ok (.page 200 { source, result := some results.toPageResult }))
      | (s, .noPolicy message) => (s, .ok (.page 500 { source, error := some message }))
      | (s, .failed cause) => (s, .error cause)

/-- The source text in a JSON value: the member `source` of an object, if it is a text. -/
def payloadSource? : Option Json → Option String
  | some (.object members) =>
    match Json.lookup "source" members with
    | some (.string source) => some source
    | _ => none
  | _ => none

/-- Answers a JSON request. A text that is not there counts as empty. -/
def analyzeJson (s : Service) (disk : Disk) (environment : Option String)
    (payload : Option Json) : Service × Reply :=
  let source := (payloadSource? payload).getD ""
  if Text.isBlank source then
    (s, .ok (.jsonError 400 [("message", .string "Missing protocol source")]))
  else if maxSourceLength < source.length then
    (s, .ok (.jsonError 413 [("message", .string "Protocol source too long")]))
  else
    match Protocol.parse source with
    | .error d => (s, .ok (.jsonError 400 d.members))
    | .ok p =>
      match s.attempt disk environment p with
      | (s, .done results) => (s, .ok ⟨200, .json results.toJson⟩)
      | (s, .noPolicy message) => (s, .ok (.jsonError 500 [("message", .string message)]))
      | (s, .failed cause) => (s, .error cause)

/-- Answers what is handed to the service. -/
def handle (s : Service) (disk : Disk) (environment : Option String) : Delivery → Service × Reply
  | .page => (s, .ok (.page 200 {}))
  | .reference => (s, .ok ⟨200, .json (.object [("ok", .bool true), ("text", .string reference)])⟩)
  | .form field => s.analyzeForm disk environment field
  | .json payload => s.analyzeJson disk environment payload
  | .settled reply => (s, reply)

end Service

end Wiretap
