import Wiretap.Command.Run
import Wiretap.Proofs.Disk
import Wiretap.Proofs.Labels
import Wiretap.Proofs.Parsing.Soundness
import Wiretap.Proofs.Report
import Wiretap.Proofs.Success
import Wiretap.Web.Analysis

/-! Whatever can be parsed can be analysed. Messages of a parsed protocol carry statements, on which
no analysis has a fault, and opening ciphertexts ends with a turn that tells nothing new. So checking
a protocol file and analysing it succeed on the same files, and fail with the same words. -/

namespace Wiretap

/-! ### Trees with labels -/

namespace Node

theorem IsExpr.of_mem_children {n : Node} (h : n.IsExpr) : ∀ child ∈ n.children, child.IsExpr := by
  cases h with
  | ident => simp [children]
  | concat hl hr => simp [children, hl, hr]
  | enc k hm | mac k hm | sign k hm => simp [children, hm, IsExpr.ident k]
  | hash hm => simp [children, hm]
  | verify k hm hs => simp [children, hm, hs, IsExpr.ident k]

theorem IsStatement.isLabelled {n : Node} (h : n.IsStatement) : n.isLabelled = true := by
  cases h with
  | expr h => exact h.isLabelled
  | assign _ h => exact h.isLabelled

theorem IsStatement.of_mem_children {n : Node} (h : n.IsStatement) :
    ∀ child ∈ n.children, child.IsStatement := by
  cases h with
  | expr h => exact fun child hchild => .expr (h.of_mem_children child hchild)
  | assign t h => simp [children, IsStatement.expr h, IsStatement.expr (.ident t)]

theorem IsStatement.labelled_outline {n : Node} (h : n.IsStatement) (depth : Nat) :
    ∀ entry ∈ n.outline depth, entry.2.isLabelled = true := by
  have hparts := forall_mem_preorder (fun _ hn => hn.of_mem_children) h
  rw [← n.outline_nodes depth, List.forall_mem_map] at hparts
  exact fun entry hentry => (hparts entry hentry).isLabelled

end Node

theorem Script.labelled_outline {messages : List Message}
    (h : ∀ m ∈ messages, m.body.IsStatement) (depth : Nat) :
    ∀ entry ∈ (Script.ofMessages messages).outline depth, entry.2.isLabelled = true := by
  induction messages with
  | nil => exact fun _ hmem => absurd hmem List.not_mem_nil
  | cons m messages ih =>
    have hm := h m List.mem_cons_self
    rw [ofMessages, outline, List.forall_mem_cons, List.forall_mem_cons, List.forall_mem_cons,
      List.forall_mem_append]
    exact ⟨hm.isLabelled, rfl, rfl, hm.labelled_outline _,
      ih fun n hn => h n (List.mem_cons_of_mem _ hn)⟩

namespace Protocol

variable {p : Protocol} {naming : Naming} {schedule : Schedule}

theorem toJson_ok (hp : ∀ m ∈ p.messages, m.body.IsStatement) : ∃ json, p.toJson = .ok json := by
  have hmessage : ∀ m ∈ p.messages, m.toJson = .ok (.object [("sender", .string m.sender),
      ("receiver", .string m.receiver), ("body", .string m.body.text)]) := by
    intro m hm
    have hlabel : m.body.label = .ok m.body.text := by
      simp [Node.label, (hp m hm).isLabelled]
    rw [Message.toJson, hlabel]
    rfl
  exact ⟨_, by rw [toJson, mapM_eq_ok hmessage]; rfl⟩

theorem pretty_ok (hp : ∀ m ∈ p.messages, m.body.IsStatement) (indent : Int) :
    ∃ text, p.toNode.pretty indent = .ok text := by
  have hdeclarations : ∀ n ∈ p.toDeclarations.nodes, n.isLabelled = true := by
    rw [Declarations.nodes, List.forall_mem_cons, List.forall_mem_append, List.forall_mem_map,
      List.forall_mem_map]
    exact ⟨rfl, fun _ _ => rfl, fun _ _ => rfl⟩
  have hlabelled : ∀ entry ∈ p.toNode.outline 0, entry.2.isLabelled = true := by
    rw [toNode, Node.outline, List.forall_mem_cons, List.forall_mem_append, List.forall_mem_map]
    exact ⟨rfl, hdeclarations, Script.labelled_outline hp _⟩
  have hline : ∀ entry ∈ p.toNode.outline 0, (do
      return String.ofList (List.replicate (2 * (indent + entry.1).toNat) ' ') ++
        (← entry.2.label) : Except Fault String) =
      .ok (String.ofList (List.replicate (2 * (indent + entry.1).toNat) ' ') ++
        entry.2.text) := by
    intro entry hentry
    unfold Node.label
    rw [if_pos (hlabelled entry hentry)]
    rfl
  unfold Node.pretty
  rw [mapM_eq_ok hline]
  exact ⟨_, rfl⟩

/-! ### Analyses -/

/-- Every analysis of the protocol comes to its end: opening ciphertexts stops because a turn told
nothing new, the report has the adversary in its last place, and the tree has all its labels. -/
structure Completes (p : Protocol) (naming : Naming) (schedule : Schedule) : Prop where
  derive : (p.derive naming schedule).fault = none
  stops : ∃ t, p.observed.state.Run (p.locks naming) schedule t ∧ t.goesOn = false ∧
    (p.derive naming schedule).state = t.state
  analyze : ∃ a last, p.analyze naming = .ok a ∧ a.report.profiles.getLast? = some last ∧
    a.report.profile? adversary = some last
  warnings : p.warningLines ≠ []
  toJson : ∃ json, p.toJson = .ok json
  pretty : ∃ text, p.toNode.pretty 0 = .ok text

theorem Reports.profile?_adversary {others : List Profile} {last : Profile} {report : Report}
    (h : p.Reports naming others last report) : report.profile? adversary = some last := by
  have hothers : others.find? (·.name = adversary) = none := by
    rw [List.find?_eq_none]
    intro profile hprofile
    obtain ⟨who, hwho, hprofile⟩ := forall₂_mem_right h.others hprofile
    simpa [hprofile.name_eq] using (mem_others.mp hwho).2
  rw [Report.profile?, h.profiles, List.find?_append, hothers]
  simp [h.last.name_eq]

theorem completes (naming : Naming) (schedule : Schedule)
    (hp : ∀ m ∈ p.messages, m.body.IsStatement) : p.Completes naming schedule where
  derive := derive_fault p naming schedule hp
  stops := by
    obtain ⟨t, run, hstop, hstate, -⟩ :=
      Knowledge.saturate_run (p.locks naming) schedule (observed_sealed hp)
    exact ⟨t, run, hstop, (derive_eq p naming schedule hp).1.trans hstate⟩
  analyze := by
    obtain ⟨a, ha, others, last, reports⟩ := analyze_reports p naming hp
    refine ⟨a, last, ha, ?_, reports.profile?_adversary⟩
    rw [reports.profiles, List.getLast?_concat]
  warnings := by
    unfold warningLines
    split
    · exact List.cons_ne_nil _ _
    · rename_i h
      simpa using h
  toJson := toJson_ok hp
  pretty := pretty_ok hp 0

/-- What the results of an analysis are made of. -/
theorem results_eq_ok {results : Results} (h : p.results naming = .ok results) :
    ∃ a text json, p.analyze naming = .ok a ∧ p.toNode.pretty 0 = .ok text ∧
      p.toJson = .ok json ∧
      results = ⟨⟨a.report.format, p.warningLines, text⟩, a.report, json⟩ := by
  simp only [Protocol.results, bind_eq_ok_iff] at h
  obtain ⟨a, ha, text, htext, json, hjson, hresults⟩ := h
  exact ⟨a, text, json, ha, htext, hjson, (Except.ok.inj hresults).symm⟩

theorem results_ok {source : String} (h : parse source = .ok p) (naming : Naming) :
    ∃ results, p.results naming = .ok results := by
  have completes := Protocol.completes naming .byText (Protocol.isStatement_of_parse h)
  obtain ⟨a, -, ha, -⟩ := completes.analyze
  obtain ⟨json, hjson⟩ := completes.toJson
  obtain ⟨text, htext⟩ := completes.pretty
  exact ⟨_, by rw [Protocol.results, ha, htext, hjson]; rfl⟩

end Protocol

/-! ### Runs of tasks -/

section Runs

variable {ε σ α β : Type} {x : ExceptT ε (StateM σ) α} {f : α → ExceptT ε (StateM σ) β} {s s' : σ}

theorem run_bind (x : ExceptT ε (StateM σ) α) (f : α → ExceptT ε (StateM σ) β) (s : σ) :
    (x >>= f).run.run s = match x.run.run s with
      | (.ok a, s') => (f a).run.run s'
      | (.error e, s') => (.error e, s') := by
  rw [ExceptT.run_bind, StateT.run_bind]
  rcases x.run.run s with ⟨_ | _, _⟩
  · rfl
  · rfl

theorem run_bind_of_ok {a : α} (h : x.run.run s = (.ok a, s')) :
    (x >>= f).run.run s = (f a).run.run s' := by
  rw [run_bind, h]

theorem run_bind_eq_ok {b : β} (h : (x >>= f).run.run s = (.ok b, s')) :
    ∃ a t, x.run.run s = (.ok a, t) ∧ (f a).run.run t = (.ok b, s') := by
  rw [run_bind] at h
  split at h
  · rename_i a t ha
    exact ⟨a, t, ha, h⟩
  · cases h

end Runs

/-- A log that was opened is a file. -/
theorem openLog_entry {setting : Setting String} {disk d : Disk} {place : Place}
    (h : (openLog setting).run.run disk = (.ok (some place), d)) :
    ∃ bytes, d.entry? place = some (.file bytes) := by
  unfold openLog at h
  split at h
  · dsimp only at h
    split at h
    · cases h
    · split at h
      · cases h
      · obtain ⟨-, d₁, -, h⟩ := run_bind_eq_ok h
        obtain ⟨d₂, d₃, -, h⟩ := run_bind_eq_ok h
        obtain ⟨found, d₄, -, h⟩ := run_bind_eq_ok h
        obtain ⟨d₅, d₆, hget, h⟩ := run_bind_eq_ok h
        cases hget
        split at h
        · cases h
        · rename_i hfolder
          cases h
          refine Disk.lookup_append_self _ _ ?_
          rintro rfl
          exact hfolder rfl
  · cases h

/-- Notes do not show in a file apart from the log, and none at all leave the log as it is. -/
theorem Session.read_note {s : Session} {events : List Event} {path : String}
    (hlog : ∀ place, s.log = some place → ∃ bytes, s.disk.entry? place = some (.file bytes))
    (h : events = [] ∨ ∀ place, s.log = some place → s.disk.locate path ≠ .ok place) :
    (s.note events).disk.read path = s.disk.read path := by
  unfold Session.note
  dsimp only
  cases hplace : s.log with
  | none => rfl
  | some place =>
    obtain ⟨bytes, hfile⟩ := hlog place hplace
    rcases h with rfl | hapart
    · exact Disk.read_append_empty hfile path
    · exact Disk.read_append hfile _ (hapart place hplace)

/-- What an analysis prints of its results. -/
def AnalyzeOptions.output (o : AnalyzeOptions) (r : Results) : String :=
  let warnings := if o.noWarnings then [] else r.warnings
  if o.json then
    (Json.object [("protocol", r.protocol), ("knowledge", r.knowledge.toJson),
      ("warnings", .strings warnings)]).indented 0 ++ "\n"
  else
    (if o.ast then "=== AST ===\n" ++ r.ast ++ "\n\n" else "") ++ r.report ++
      if o.noWarnings then ""
      else "\nVerification Warnings:\n" ++ String.join (warnings.map ("  - " ++ · ++ "\n"))

namespace Task

variable {path : String} {s : Session}

/-- The protocol that a file spells, or what stops a run on that file. -/
def protocolOf (path : String) : Except FileError (List UInt8) → Except Interruption Protocol
  | .ok bytes =>
    match Protocol.parse (Text.lineFeeds (Text.decodeLossy bytes)) with
    | .ok p => .ok p
    | .error d => .error (.message (path ++ ": " ++ d.message))
  | .error .nulByte => .error (.file .nulByte path)
  | .error e => .error (.message ("Cannot read " ++ path ++ ": " ++ e.reason))

theorem protocolOf_eq_ok {content : Except FileError (List UInt8)} {p : Protocol} :
    protocolOf path content = .ok p ↔
      ∃ bytes, content = .ok bytes ∧
        Protocol.parse (Text.lineFeeds (Text.decodeLossy bytes)) = .ok p := by
  unfold protocolOf
  split
  · rename_i bytes
    split
    · rename_i q hq
      simp [hq]
    · rename_i d hd
      simp [hd]
  · simp
  · simp

/-- How a run of a task ends, without the text that it writes. -/
def ending {α : Type} (t : Task α) (s : Session) : Except Interruption Unit :=
  (t.run.run s).1.map fun _ => ()

theorem loadProtocol_result (path : String) (s : Session) :
    ((loadProtocol path).run.run s).1 = protocolOf path (s.disk.read path) := by
  have hget : (get : Task Session).run.run s = (.ok s, s) := rfl
  unfold loadProtocol
  cases hread : s.disk.read path with
  | ok bytes =>
    have hsource : (readSource path).run.run s =
        (.ok (Text.lineFeeds (Text.decodeLossy bytes)), s) := by
      unfold readSource
      rw [run_bind_of_ok hget, hread]
      rfl
    rw [run_bind_of_ok hsource]
    unfold protocolOf
    dsimp only
    cases Protocol.parse (Text.lineFeeds (Text.decodeLossy bytes)) with
    | ok p => rfl
    | error d => rfl
  | error e =>
    unfold readSource
    rw [run_bind, run_bind_of_ok hget, hread]
    cases e with
    | _ => rfl

theorem check_result (path : String) (s : Session) :
    ((check path).run.run s).1 =
      ((loadProtocol path).run.run s).1.map fun _ => "No errors detected.\n" := by
  unfold check
  rw [run_bind]
  rcases (loadProtocol path).run.run s with ⟨_ | p, t⟩
  · rfl
  · rfl

theorem check_ending (path : String) (s : Session) :
    (check path).ending s = (protocolOf path (s.disk.read path)).map fun _ => () := by
  rw [ending, check_result, loadProtocol_result]
  cases protocolOf path (s.disk.read path) with
  | error cause => rfl
  | ok p => rfl

theorem check_ending_ok_iff : (check path).ending s = .ok () ↔ ∃ bytes p,
    s.disk.read path = .ok bytes ∧
      Protocol.parse (Text.lineFeeds (Text.decodeLossy bytes)) = .ok p := by
  rw [check_ending]
  constructor
  · intro h
    cases hp : protocolOf path (s.disk.read path) with
    | error cause =>
      rw [hp] at h
      cases h
    | ok p =>
      obtain ⟨bytes, hread, hparse⟩ := protocolOf_eq_ok.mp hp
      exact ⟨bytes, p, hread, hparse⟩
  · rintro ⟨bytes, p, hread, hparse⟩
    rw [protocolOf_eq_ok.mpr ⟨bytes, hread, hparse⟩]
    rfl

theorem loadPolicy_run {environment : Option String} {choice : Setting String}
    {loaded : LoadedNaming} (h : loadChosenNaming s.disk environment choice = .ok loaded) :
    (loadPolicy environment choice).run.run s = (.ok loaded.naming, s.note loaded.events) := by
  have hget : (get : Task Session).run.run s = (.ok s, s) := rfl
  unfold loadPolicy
  rw [run_bind_of_ok hget, h]
  rfl

variable {environment : Option String} {o : AnalyzeOptions} {loaded : LoadedNaming}

/-- An analysis that has its convention is what becomes of the protocol that it reads. -/
theorem analyze_result {read : Except Interruption Protocol}
    (hpolicy : loadChosenNaming s.disk environment o.policy = .ok loaded)
    (hload : ((loadProtocol o.protocolFile).run.run (s.note loaded.events)).1 = read) :
    (∀ cause, read = .error cause → ((analyze environment o).run.run s).1 = .error cause) ∧
    ∀ p results, read = .ok p → p.results loaded.naming = .ok results →
      ((analyze environment o).run.run s).1 = .ok (o.output results) := by
  unfold analyze AnalyzeOptions.output
  rw [run_bind_of_ok (loadPolicy_run hpolicy), run_bind]
  rcases hrun : (loadProtocol o.protocolFile).run.run (s.note loaded.events) with ⟨cause | p, t⟩
  · rw [hrun] at hload
    subst hload
    dsimp only
    exact ⟨fun _ h => congrArg Except.error (Except.error.inj h), nofun⟩
  · rw [hrun] at hload
    subst hload
    dsimp only
    refine ⟨nofun, fun q results hq hresults => ?_⟩
    cases hq
    obtain ⟨a, text, json, ha, htext, hjson, rfl⟩ := Protocol.results_eq_ok hresults
    rw [ha, hjson, htext]
    by_cases hj : o.json = true
    · simp only [hj]
      rfl
    · by_cases htree : o.ast = true
      · simp only [hj, htree]
        rfl
      · simp only [hj, htree]
        rfl

/-- With a convention at hand, an analysis stops only on what its file holds: once the protocol is
read, nothing that is computed from it has a fault. -/
theorem analyze_ending
    (hpolicy : loadChosenNaming s.disk environment o.policy = .ok loaded)
    (hread : (s.note loaded.events).disk.read o.protocolFile = s.disk.read o.protocolFile) :
    (analyze environment o).ending s =
      (protocolOf o.protocolFile (s.disk.read o.protocolFile)).map fun _ => () := by
  have hload := loadProtocol_result o.protocolFile (s.note loaded.events)
  rw [hread] at hload
  obtain ⟨hrefused, hshown⟩ := analyze_result hpolicy hload
  unfold ending
  cases hp : protocolOf o.protocolFile (s.disk.read o.protocolFile) with
  | error cause =>
    rw [hrefused cause hp]
    rfl
  | ok p =>
    obtain ⟨bytes, -, hparse⟩ := protocolOf_eq_ok.mp hp
    obtain ⟨results, hresults⟩ := Protocol.results_ok hparse loaded.naming
    rw [hshown p results hp hresults]
    rfl

end Task

/-! ### Command lines -/

/-- The exit status and the words that follow from how a run ends. -/
def verdictOf : Except Interruption Unit → UInt32 × Option String
  | .ok _ => (0, none)
  | .error cause => (1, some cause.text)

theorem runCommandLine_of_result {disk d : Disk} (environment : Option String) (stamp : String)
    {args : List String} {i : Invocation} {log : Option Place}
    (hargs : Invocation.ofArguments args = .ok i)
    (hlog : (openLog i.logFile).run.run disk = (.ok log, d)) {result : Except Interruption String}
    (h : ((Task.ofCommand environment i.command).run.run { disk := d, log, stamp }).1 = result) :
    ∃ console, (runCommandLine disk environment stamp args).1 = match result with
      | .ok stdout => .finished none stdout console
      | .error (.message text) => .finished (some text) "" console
      | .error cause => .failed cause := by
  unfold runCommandLine
  rw [hargs]
  dsimp only
  rw [hlog]
  dsimp only
  rcases hrun : (Task.ofCommand environment i.command).run.run { disk := d, log, stamp } with
    ⟨cause | text, session⟩
  · rw [hrun] at h
    cases h
    cases cause with
    | message text => exact ⟨_, rfl⟩
    | _ => exact ⟨[], rfl⟩
  · rw [hrun] at h
    cases h
    exact ⟨_, rfl⟩

theorem runCommandLine_of_log {disk d : Disk} {environment : Option String} {stamp : String}
    {args : List String} {i : Invocation} {log : Option Place}
    (hargs : Invocation.ofArguments args = .ok i)
    (hlog : (openLog i.logFile).run.run disk = (.ok log, d)) :
    ((runCommandLine disk environment stamp args).1.exitStatus,
      (runCommandLine disk environment stamp args).1.complaint?) =
    verdictOf ((Task.ofCommand environment i.command).ending { disk := d, log, stamp }) := by
  obtain ⟨console, hrun⟩ := runCommandLine_of_result environment stamp hargs hlog rfl
  rw [hrun, Task.ending]
  rcases ((Task.ofCommand environment i.command).run.run { disk := d, log, stamp }).1 with
    cause | text
  · cases cause with
    | _ => rfl
  · rfl

theorem runCommandLine_of_no_log {disk d : Disk} {environment : Option String} {stamp : String}
    {args : List String} {i : Invocation} {e : FileError} {path : String}
    (hargs : Invocation.ofArguments args = .ok i)
    (hlog : (openLog i.logFile).run.run disk = (.error (e, path), d)) :
    ((runCommandLine disk environment stamp args).1.exitStatus,
      (runCommandLine disk environment stamp args).1.complaint?) =
    verdictOf (.error (.file e path)) := by
  unfold runCommandLine
  rw [hargs]
  dsimp only
  rw [hlog]
  rfl

/-- A convention can be read once the log is open. If it comes from a file, which is noted in the
log, the log is not the protocol file. -/
def AnalyzeOptions.Ready (o : AnalyzeOptions) (environment : Option String) (log : Option Place)
    (d : Disk) : Prop :=
  ∃ loaded, loadChosenNaming d environment o.policy = .ok loaded ∧
    (loaded.events = [] ∨ ∀ place, log = some place → d.locate o.protocolFile ≠ .ok place)

/-- Checking a file and analysing it end alike. -/
theorem ending_analyze_eq_check {disk d : Disk} {environment : Option String}
    (stamp stamp' : String) {o : AnalyzeOptions} {logFile : Setting String} {log : Option Place}
    (hlog : (openLog logFile).run.run disk = (.ok log, d)) (ready : o.Ready environment log d) :
    (Task.analyze environment o).ending { disk := d, log, stamp := stamp' } =
      (Task.check o.protocolFile).ending { disk := d, log, stamp } := by
  obtain ⟨loaded, hpolicy, hapart⟩ := ready
  have hfile : ∀ place, log = some place → ∃ bytes, d.entry? place = some (.file bytes) := by
    rintro place rfl
    exact openLog_entry hlog
  let s : Session := { disk := d, log, stamp := stamp' }
  have hread : (s.note loaded.events).disk.read o.protocolFile = s.disk.read o.protocolFile :=
    Session.read_note hfile hapart
  have hcheck := Task.check_ending o.protocolFile { disk := d, log, stamp }
  exact (Task.analyze_ending (s := s) hpolicy hread).trans hcheck.symm

/-- With the log open, the file can be read and spells a protocol. -/
def HoldsProtocol (disk : Disk) (logFile : Setting String) (path : String) : Prop :=
  ∃ log d bytes p, (openLog logFile).run.run disk = (.ok log, d) ∧ d.read path = .ok bytes ∧
    Protocol.parse (Text.lineFeeds (Text.decodeLossy bytes)) = .ok p

/-- Both command lines have the verdict of one result, which is good if the file holds a
protocol. -/
theorem exists_verdict {disk : Disk} {environment : Option String} (stamp stamp' : String)
    {args args' : List String} {verbose verbose' : Bool} {logFile : Setting String}
    {o : AnalyzeOptions}
    (hcheck : Invocation.ofArguments args = .ok ⟨verbose, logFile, .check o.protocolFile⟩)
    (hanalyze : Invocation.ofArguments args' = .ok ⟨verbose', logFile, .analyze o⟩)
    (hready : ∀ log d, (openLog logFile).run.run disk = (.ok log, d) → o.Ready environment log d) :
    ∃ result, (result = .ok () ↔ HoldsProtocol disk logFile o.protocolFile) ∧
      ((runCommandLine disk environment stamp args).1.exitStatus,
        (runCommandLine disk environment stamp args).1.complaint?) = verdictOf result ∧
      ((runCommandLine disk environment stamp' args').1.exitStatus,
        (runCommandLine disk environment stamp' args').1.complaint?) = verdictOf result := by
  unfold HoldsProtocol
  rcases hlog : (openLog logFile).run.run disk with ⟨⟨e, path⟩ | log, d⟩
  · refine ⟨_, ?_, runCommandLine_of_no_log hcheck hlog, runCommandLine_of_no_log hanalyze hlog⟩
    constructor
    · exact nofun
    · rintro ⟨log, d, bytes, p, hopen, -⟩
      cases hopen
  · have halike := ending_analyze_eq_check stamp stamp' hlog (hready log d hlog)
    refine ⟨_, Task.check_ending_ok_iff.trans ?_, runCommandLine_of_log hcheck hlog,
      (runCommandLine_of_log hanalyze hlog).trans (congrArg verdictOf halike)⟩
    constructor
    · rintro ⟨bytes, p, hread, hparse⟩
      exact ⟨log, d, bytes, p, rfl, hread, hparse⟩
    · rintro ⟨log, d, bytes, p, hopen, hread, hparse⟩
      cases hopen
      exact ⟨bytes, p, hread, hparse⟩

/-- Every protocol that can be parsed can be analysed to the end. So a file that is checked and
analysed gives one exit status and one complaint, and the status is zero just when the file holds
a protocol. -/
theorem analysis_total :
    (∀ source p, Protocol.parse source = .ok p → ∀ naming schedule, p.Completes naming schedule) ∧
    ∀ (disk : Disk) (environment : Option String) (stamp stamp' : String)
      (args args' : List String) (verbose verbose' : Bool) (logFile : Setting String)
      (o : AnalyzeOptions),
      Invocation.ofArguments args = .ok ⟨verbose, logFile, .check o.protocolFile⟩ →
      Invocation.ofArguments args' = .ok ⟨verbose', logFile, .analyze o⟩ →
      (∀ log d, (openLog logFile).run.run disk = (.ok log, d) → o.Ready environment log d) →
      let checked := (runCommandLine disk environment stamp args).1
      let analysed := (runCommandLine disk environment stamp' args').1
      (checked.exitStatus = 0 ↔ analysed.exitStatus = 0) ∧
      (checked.exitStatus ≠ 0 → analysed.exitStatus = checked.exitStatus ∧
        ∃ text, checked.complaint? = some text ∧ analysed.complaint? = some text) ∧
      (checked.exitStatus = 0 ↔ HoldsProtocol disk logFile o.protocolFile) := by
  refine ⟨fun source p hparse naming schedule =>
    Protocol.completes naming schedule (Protocol.isStatement_of_parse hparse), ?_⟩
  intro disk environment stamp stamp' args args' verbose verbose' logFile o hcheck hanalyze hready
    checked analysed
  obtain ⟨result, hresult, hchecked, hanalysed⟩ :=
    exists_verdict stamp stamp' hcheck hanalyze hready
  obtain ⟨hstatus, htext⟩ := Prod.mk.inj hchecked
  obtain ⟨hstatus', htext'⟩ := Prod.mk.inj hanalysed
  have hzero : checked.exitStatus = 0 ↔ result = .ok () := by
    rw [hstatus]
    cases result with
    | ok => simp
    | error cause => simp
  refine ⟨by rw [hstatus, hstatus'], ?_, hzero.trans hresult⟩
  intro hfailed
  cases result with
  | ok => exact absurd (hzero.mpr rfl) hfailed
  | error cause => exact ⟨hstatus'.trans hstatus.symm, cause.text, htext, htext'⟩

/-- A nested ciphertext whose keys are sent after it, the outer one last. -/
def lateKeys : String :=
  "roles: A, B\r\nshared key K: A\nshared key L: A\nA -> B: c = Enc(K, Enc(L, M1))\n" ++
    "A -> B: L || K\n"

/-- A home folder with a protocol, a file that is none, and a naming convention. -/
def desk : Disk where
  home := ["h"]
  working := ["h"]
  entries := [(["h"], .folder), (["h", "late.txt"], .file (Text.encode lateKeys)),
    (["h", "twice.txt"], .file (Text.encode "roles: A, B\nA -> B: t = u = M1\n")),
    (["h", "policy.json"], .file (Text.encode "\x7b\x7d"))]

/-- A command line that checks a file on the desk. -/
def checkOf (path : String) : List String :=
  ["--log-file", "run.log", "check", path]

/-- A command line that analyses a file on the desk. -/
def analyzeOf (path : String) : List String :=
  ["--log-file", "run.log", "analyze", "--policy", "policy.json", "--json", path]

/-- What `analyzeOf` asks for. -/
def analyzeOptionsOf (path : String) : AnalyzeOptions where
  protocolFile := path
  policy := .value "policy.json"
  json := true

theorem analysis_total_desk :
    (∃ p, Protocol.parse (Text.lineFeeds lateKeys) = .ok p ∧ p.Completes {} .byText) ∧
    (∀ path ∈ ["late.txt", "twice.txt"],
      Invocation.ofArguments (checkOf path) = .ok ⟨false, .value "run.log", .check path⟩ ∧
      Invocation.ofArguments (analyzeOf path) =
        .ok ⟨false, .value "run.log", .analyze (analyzeOptionsOf path)⟩ ∧
      ∀ log d, (openLog (.value "run.log")).run.run desk = (.ok log, d) →
        (analyzeOptionsOf path).Ready none log d) ∧
    (runCommandLine desk none "noon" (checkOf "late.txt")).1.exitStatus = 0 ∧
    (runCommandLine desk none "one" (analyzeOf "late.txt")).1.exitStatus = 0 ∧
    (runCommandLine desk none "noon" (checkOf "twice.txt")).1.exitStatus = 1 ∧
    ∃ text, (runCommandLine desk none "noon" (checkOf "twice.txt")).1.complaint? = some text ∧
      (runCommandLine desk none "one" (analyzeOf "twice.txt")).1.complaint? = some text := by
  have hsome : (Protocol.parse (Text.lineFeeds lateKeys)).toOption.isSome = true := by
    decide +kernel
  obtain ⟨p, hparse⟩ := exists_eq_ok hsome
  obtain ⟨d, hopen, hpolicy, hlate, htwice, hbytes⟩ : ∃ d,
      (openLog (.value "run.log")).run.run desk = (.ok (some ["h", "run.log"]), d) ∧
      (loadChosenNaming d none (.value "policy.json")).toOption.isSome = true ∧
      d.locate "late.txt" = .ok ["h", "late.txt"] ∧ d.locate "twice.txt" = .ok ["h", "twice.txt"] ∧
      d.read "late.txt" = .ok (Text.encode lateKeys) :=
    ⟨_, rfl, by decide +kernel, by decide +kernel, by decide +kernel, by decide +kernel⟩
  have hready : ∀ path, d.locate path ≠ .ok ["h", "run.log"] → ∀ log d',
      (openLog (.value "run.log")).run.run desk = (.ok log, d') →
      (analyzeOptionsOf path).Ready none log d' := by
    intro path hapart log d' h
    cases hopen.symm.trans h
    obtain ⟨loaded, hloaded⟩ := exists_eq_ok hpolicy
    refine ⟨loaded, hloaded, .inr ?_⟩
    rintro place ⟨⟩
    exact hapart
  have hready₁ := hready "late.txt" (by rw [hlate]; decide)
  have hready₂ := hready "twice.txt" (by rw [htwice]; decide)
  have hargs : ∀ path ∈ ["late.txt", "twice.txt"],
      Invocation.ofArguments (checkOf path) = .ok ⟨false, .value "run.log", .check path⟩ ∧
      Invocation.ofArguments (analyzeOf path) =
        .ok ⟨false, .value "run.log", .analyze (analyzeOptionsOf path)⟩ := by
    decide +kernel
  obtain ⟨hcheck₁, hanalyze₁⟩ := hargs "late.txt" (by decide)
  obtain ⟨hcheck₂, hanalyze₂⟩ := hargs "twice.txt" (by decide)
  have good := analysis_total.2 desk none "noon" "one" _ _ _ _ _ _ hcheck₁ hanalyze₁ hready₁
  have bad := analysis_total.2 desk none "noon" "one" _ _ _ _ _ _ hcheck₂ hanalyze₂ hready₂
  have hdecoded : Text.decodeLossy (Text.encode lateKeys) = lateKeys := by decide +kernel
  have hzero := good.2.2.mpr ⟨_, d, _, p, hopen, hbytes, by rw [hdecoded]; exact hparse⟩
  have hone : (runCommandLine desk none "noon" (checkOf "twice.txt")).1.exitStatus = 1 := by
    decide +kernel
  refine ⟨⟨p, hparse, analysis_total.1 _ p hparse _ _⟩, ?_, hzero, good.1.mp hzero, hone, ?_⟩
  · simp only [List.forall_mem_cons, List.not_mem_nil, false_imp_iff, implies_true, and_true]
    exact ⟨⟨hcheck₁, hanalyze₁, hready₁⟩, hcheck₂, hanalyze₂, hready₂⟩
  · exact (bad.2.1 (by rw [hone]; decide)).2

end Wiretap
