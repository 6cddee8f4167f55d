import Wiretap.Proofs.Totality

/-! Source texts that are handed to the web service, from a form or from JSON. Both ways have the
same checks in the same order: the text must not be blank or too long and has to spell a protocol,
and only then a naming convention is looked for. So the way that a text takes does not show in the
status of the answer. -/

namespace Wiretap

/-! ### Deliveries of a source text -/

/-- The ways to send a source text. -/
inductive Channel where
  | form
  | json
deriving DecidableEq

/-- The source text that the service is handed, with the way that it took. A text that is not there
counts as empty. -/
def Delivery.carried? : Delivery → Option (Channel × String)
  | form source => some (.form, source.getD "")
  | json payload => some (.json, (Service.payloadSource? payload).getD "")
  | _ => none

/-- The delivery brings a source text to an analysis. -/
def Delivery.Carries (d : Delivery) (channel : Channel) (source : String) : Prop :=
  d.carried? = some (channel, source)

/-! ### What becomes of a source text -/

/-- Why a source text is not analysed, whatever the naming convention. -/
inductive Objection where
  | missing
  | tooLong
  | rejected (d : Diagnostic)

/-- The protocol to analyse in a source text. -/
def screen (source : String) : Except Objection Protocol :=
  if Text.isBlank source then .error .missing
  else if maxSourceLength < source.length then .error .tooLong
  else
    match Protocol.parse source with
    | .error d => .error (.rejected d)
    | .ok p => .ok p

variable {source : String}

theorem screen_of_fits (hblank : Text.isBlank source = false)
    (hlength : source.length ≤ maxSourceLength) :
    screen source = (Protocol.parse source).mapError .rejected := by
  unfold screen
  rw [hblank, if_neg Bool.false_ne_true, if_neg (Nat.not_lt.mpr hlength)]
  cases Protocol.parse source with
  | ok p => rfl
  | error d => rfl

theorem parse_of_screen {p : Protocol} (h : screen source = .ok p) :
    Protocol.parse source = .ok p := by
  unfold screen at h
  split at h
  · cases h
  split at h
  · cases h
  cases hparse : Protocol.parse source with
  | error d =>
    rw [hparse] at h
    cases h
  | ok q =>
    rw [hparse] at h
    cases h
    rfl

theorem exists_objection (h : Text.isBlank source = true ∨
    maxSourceLength < source.length ∨ ∃ d, Protocol.parse source = .error d) :
    ∃ objection, screen source = .error objection := by
  unfold screen
  split
  · exact ⟨_, rfl⟩
  split
  · exact ⟨_, rfl⟩
  rename_i hblank hlong
  obtain ⟨d, hparse⟩ := (h.resolve_left hblank).resolve_left hlong
  rw [hparse]
  exact ⟨_, rfl⟩

namespace Channel

/-- The answer to a source text that is not analysed. -/
def refusal (source : String) : Channel → Objection → Response
  | form, .missing => .badRequest "Missing protocol source"
  | form, .tooLong =>
    .tooLarge ("Protocol source longer than " ++ toString maxSourceLength ++ " characters")
  | form, .rejected d => .page 400 { source, error := some d.message }
  | json, .missing => .jsonError 400 [("message", .string "Missing protocol source")]
  | json, .tooLong => .jsonError 413 [("message", .string "Protocol source too long")]
  | json, .rejected d => .jsonError 400 d.members

/-- The answer to a protocol that was analysed. -/
def showing (source : String) (results : Results) : Channel → Response
  | form => .page 200 { source, result := some results.toPageResult }
  | json => ⟨200, .json results.toJson⟩

/-- The answer to a protocol for which there is no naming convention. -/
def lacking (source message : String) : Channel → Response
  | form => .page 500 { source, error := some message }
  | json => .jsonError 500 [("message", .string message)]

/-- The answer to an attempt at an analysis. -/
def reply (channel : Channel) (source : String) : Service.Attempt → Reply
  | .done results => .ok (channel.showing source results)
  | .noPolicy message => .ok (channel.lacking source message)
  | .failed cause => .error cause

end Channel

namespace Service

variable {s : Service} {disk : Disk} {environment : Option String} {d : Delivery}
  {channel : Channel} {source : String}

/-- What is done with a source text that was sent. -/
def submit (s : Service) (disk : Disk) (environment : Option String) (channel : Channel)
    (source : String) : Service × Reply :=
  match screen source with
  | .error objection => (s, .ok (channel.refusal source objection))
  | .ok p =>
    let (t, attempt) := s.attempt disk environment p
    (t, channel.reply source attempt)

theorem analyzeForm_eq (s : Service) (disk : Disk) (environment field : Option String) :
    s.analyzeForm disk environment field =
      s.submit disk environment .form (field.getD "") := by
  unfold analyzeForm submit screen
  dsimp only
  generalize field.getD "" = source
  split
  · rfl
  split
  · rfl
  cases Protocol.parse source with
  | error d => rfl
  | ok p =>
    dsimp only
    rcases s.attempt disk environment p with ⟨t, _ | _ | _⟩ <;> rfl

theorem analyzeJson_eq (s : Service) (disk : Disk) (environment : Option String)
    (payload : Option Json) :
    s.analyzeJson disk environment payload =
      s.submit disk environment .json ((payloadSource? payload).getD "") := by
  unfold analyzeJson submit screen
  dsimp only
  generalize (payloadSource? payload).getD "" = source
  split
  · rfl
  split
  · rfl
  cases Protocol.parse source with
  | error d => rfl
  | ok p =>
    dsimp only
    rcases s.attempt disk environment p with ⟨t, _ | _ | _⟩ <;> rfl

/-- A delivery that carries a source text gets what becomes of the text. -/
theorem handle_of_carries (h : d.Carries channel source) :
    s.handle disk environment d = s.submit disk environment channel source := by
  cases d with
  | form field =>
    cases h
    exact s.analyzeForm_eq disk environment field
  | json payload =>
    cases h
    exact s.analyzeJson_eq disk environment payload
  | page | reference | settled => cases h

end Service

namespace Service

variable {s : Service} {disk : Disk} {environment : Option String} {channel : Channel}
  {source : String}

theorem submit_of_objection {objection : Objection} (h : screen source = .error objection) :
    s.submit disk environment channel source = (s, .ok (channel.refusal source objection)) := by
  rw [submit, h]

theorem submit_of_no_policy {p : Protocol} {e : LoadError} (h : screen source = .ok p)
    (hpolicy : s.policy disk environment = .error e) :
    s.submit disk environment channel source = (s, channel.reply source
      (if e.isInFile then .noPolicy ("Cannot load naming policy: " ++ e.message)
        else .failed (.load e))) := by
  rw [submit, h]
  dsimp only
  rw [attempt, hpolicy]

/-- With a convention at hand, every protocol gets results. -/
theorem submit_of_policy (channel : Channel) {p : Protocol} {naming : Naming} {t : Service}
    (h : screen source = .ok p) (hpolicy : s.policy disk environment = .ok (naming, t)) :
    ∃ results, p.results naming = .ok results ∧ s.submit disk environment channel source =
      (t, .ok (channel.showing source results)) := by
  obtain ⟨results, hresults⟩ := Protocol.results_ok (parse_of_screen h) naming
  refine ⟨results, hresults, ?_⟩
  rw [submit, h]
  dsimp only
  rw [attempt, hpolicy]
  dsimp only
  rw [hresults]
  rfl

end Service

/-! ### Statuses -/

/-- The status of an answer, or why there is none. -/
def Reply.status (r : Reply) : Except Failure Nat :=
  r.map (·.status)

/-- The status of the answer to a source text that is not analysed. -/
def Objection.status : Objection → Nat
  | tooLong => 413
  | missing | rejected _ => 400

theorem Objection.status_cases (objection : Objection) :
    objection.status = 400 ∨ objection.status = 413 := by
  cases objection with
  | tooLong => exact .inr rfl
  | missing | rejected => exact .inl rfl

namespace Channel

theorem status_refusal (channel : Channel) (source : String) (objection : Objection) :
    Reply.status (.ok (channel.refusal source objection)) = .ok objection.status := by
  cases channel with
  | _ => cases objection with
    | _ => rfl

theorem status_showing (channel : Channel) (source : String) (results : Results) :
    Reply.status (.ok (channel.showing source results)) = .ok 200 := by
  cases channel with
  | _ => rfl

theorem status_lacking (channel : Channel) (source message : String) :
    Reply.status (.ok (channel.lacking source message)) = .ok 500 := by
  cases channel with
  | _ => rfl

theorem status_reply (channel : Channel) (source : String) (attempt : Service.Attempt) :
    (channel.reply source attempt).status = match attempt with
      | .done _ => .ok 200
      | .noPolicy _ => .ok 500
      | .failed cause => .error cause := by
  cases attempt with
  | done results => exact channel.status_showing source results
  | noPolicy message => exact channel.status_lacking source message
  | failed cause => rfl

end Channel

/-- The channel shows neither in the status nor in the service afterwards. -/
theorem Service.submit_alike (s : Service) (disk : Disk) (environment : Option String)
    (channel channel' : Channel) (source : String) :
    (s.submit disk environment channel source).2.status =
        (s.submit disk environment channel' source).2.status ∧
      (s.submit disk environment channel source).1 =
        (s.submit disk environment channel' source).1 := by
  unfold submit
  cases screen source with
  | error objection =>
    refine ⟨?_, rfl⟩
    dsimp only
    rw [Channel.status_refusal, Channel.status_refusal]
  | ok p =>
    refine ⟨?_, rfl⟩
    dsimp only
    rw [Channel.status_reply, Channel.status_reply]

end Wiretap
