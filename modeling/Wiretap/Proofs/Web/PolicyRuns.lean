import Wiretap.Proofs.Web.Submission
import Wiretap.Web.Service

/-! The naming convention over whole runs of the web service. Files and environment change freely
between requests, and requests may be of any sort, with any rule for what the service is handed of
them. A request is answered from itself alone, or it finds no convention and leaves the service as
it was, or it is answered with results, under a convention that the service then keeps. So the first
protocol that is analysed settles the convention for the whole run. -/

namespace Wiretap

/-! ### The cached convention -/

/-- The request was not answered for want of a naming convention. -/
def Reply.LacksPolicy (r : Reply) : Prop :=
  r.status = .ok 500 ∨ ∃ e, r.status = .error (.load e)

theorem Reply.LacksPolicy.ne_ok {r : Reply} {n : Nat} (h : r.LacksPolicy) (hn : n ≠ 500) :
    r.status ≠ .ok n := by
  rcases h with h | ⟨e, h⟩
  · rw [h]
    exact fun heq => hn (Except.ok.inj heq).symm
  · rw [h]
    exact nofun

/-- Whether an analysis is asked for. -/
def Delivery.isAnalysis (d : Delivery) : Bool :=
  d.carried?.isSome

/-- Whether the service is not asked. -/
def Delivery.isSettled : Delivery → Bool
  | settled _ => true
  | _ => false

theorem Delivery.Carries.isAnalysis {d : Delivery} {channel : Channel} {source : String}
    (h : d.Carries channel source) : d.isAnalysis = true := by
  rw [Delivery.isAnalysis, h]
  rfl

namespace Service

variable {s t : Service} {disk : Disk} {environment : Option String} {naming : Naming}

theorem policy_of_cached (h : s.naming = some naming) :
    s.policy disk environment = .ok (naming, s) := by
  rw [policy, h]

theorem policy_eq_error {e : LoadError} (h : s.policy disk environment = .error e) :
    s.naming = none ∧ loadNaming disk environment none = .error e := by
  cases hnaming : s.naming with
  | some naming =>
    rw [policy_of_cached hnaming] at h
    cases h
  | none =>
    rw [policy, hnaming] at h
    cases hload : loadNaming disk environment none with
    | ok loaded =>
      rw [hload] at h
      cases h
    | error e' =>
      rw [hload] at h
      cases h
      exact ⟨rfl, rfl⟩

theorem policy_of_load {loaded : LoadedNaming} (hs : s.naming = none)
    (h : loadNaming disk environment none = .ok loaded) :
    s.policy disk environment = .ok (loaded.naming, ⟨some loaded.naming⟩) := by
  rw [policy, hs, h]

/-- A convention that is not cached is read now, and is cached. -/
theorem policy_of_empty (hs : s.naming = none) (h : s.policy disk environment = .ok (naming, t)) :
    t.naming = some naming ∧
      ∃ loaded, loadNaming disk environment none = .ok loaded ∧ loaded.naming = naming := by
  cases hload : loadNaming disk environment none with
  | ok loaded =>
    rw [policy_of_load hs hload] at h
    cases h
    exact ⟨rfl, loaded, rfl, rfl⟩
  | error e =>
    rw [policy, hs, hload] at h
    cases h

/-- What carries no source text always gets the same answer. -/
theorem carries_or_plain (d : Delivery) :
    (∃ channel source, d.Carries channel source) ∨
      d.isAnalysis = false ∧ ∃ reply : Reply,
        (∀ (s : Service) disk environment, s.handle disk environment d = (s, reply)) ∧
        (d.isSettled = false → ¬reply.LacksPolicy) := by
  cases d with
  | form field => exact .inl ⟨_, _, rfl⟩
  | json payload => exact .inl ⟨_, _, rfl⟩
  | page => exact .inr ⟨rfl, _, fun _ _ _ => rfl, fun _ => nofun⟩
  | reference => exact .inr ⟨rfl, _, fun _ _ _ => rfl, fun _ => nofun⟩
  | settled reply => exact .inr ⟨rfl, reply, fun _ _ _ => rfl, nofun⟩

end Service

/-! ### What a request comes to -/

/-- A request with the files and the environment variable that it meets. -/
structure Visit (ρ : Type) where
  disk : Disk
  environment : Option String
  request : ρ

/-- A request, the service before and after it, and the answer. -/
structure Exchange (ρ : Type) where
  visit : Visit ρ
  before : Service
  after : Service
  reply : Reply

namespace Exchange

variable {ρ : Type} {deliver : ρ → Delivery} {x : Exchange ρ}

/-- The answer and the service afterwards are those to what is delivered of the request. -/
def Faithful (deliver : ρ → Delivery) (x : Exchange ρ) : Prop :=
  x.before.handle x.visit.disk x.visit.environment (deliver x.visit.request) = (x.after, x.reply)

/-- Whether a protocol was analysed. -/
def succeeded (deliver : ρ → Delivery) (x : Exchange ρ) : Bool :=
  (deliver x.visit.request).isAnalysis && x.reply.status = .ok 200

/-- The answer shows the results of an analysis under this convention, which is the one that the
service had or has just read, and keeps. -/
structure Uses (deliver : ρ → Delivery) (x : Exchange ρ) (naming : Naming) : Prop where
  policy : x.before.policy x.visit.disk x.visit.environment = .ok (naming, x.after)
  results : ∃ channel source p results, (deliver x.visit.request).Carries channel source ∧
    Protocol.parse source = .ok p ∧ p.results naming = .ok results ∧
    x.reply = .ok (channel.showing source results)

/-- What a request can come to: an answer to the request alone, no answer for want of a
convention, or results. -/
inductive Course (deliver : ρ → Delivery) (x : Exchange ρ) : Prop
  | plain : (∀ (s : Service) disk environment,
        s.handle disk environment (deliver x.visit.request) = (s, x.reply)) →
      x.after = x.before →
      ((deliver x.visit.request).isSettled = false → ¬x.reply.LacksPolicy) →
      x.succeeded deliver = false → Course deliver x
  | lacking {e : LoadError} : x.reply.LacksPolicy → x.before.naming = none →
      loadNaming x.visit.disk x.visit.environment none = .error e →
      x.after = x.before → x.succeeded deliver = false → Course deliver x
  | analysed {naming : Naming} : x.Uses deliver naming → x.succeeded deliver = true →
      Course deliver x

theorem succeeded_eq_false (h : x.reply.status ≠ .ok 200) : x.succeeded deliver = false := by
  rw [succeeded, Bool.and_eq_false_imp]
  exact fun _ => decide_eq_false h

theorem succeeded_eq_true {channel : Channel} {source : String}
    (h : (deliver x.visit.request).Carries channel source) (hstatus : x.reply.status = .ok 200) :
    x.succeeded deliver = true := by
  rw [succeeded, h.isAnalysis, Bool.true_and]
  exact decide_eq_true hstatus

theorem status_of_succeeded (h : x.succeeded deliver = true) : x.reply.status = .ok 200 := by
  rw [succeeded, Bool.and_eq_true] at h
  exact of_decide_eq_true h.2

theorem course_of_carries {channel : Channel} {source : String}
    (hcarries : (deliver x.visit.request).Carries channel source)
    (h : x.before.submit x.visit.disk x.visit.environment channel source = (x.after, x.reply)) :
    x.Course deliver := by
  cases hscreen : screen source with
  | error objection =>
    rw [Service.submit_of_objection hscreen] at h
    obtain ⟨hafter, hreply⟩ := Prod.mk.inj h
    have hstatus : x.reply.status = .ok objection.status := by
      rw [← hreply, channel.status_refusal]
    have hcases := objection.status_cases
    refine .plain (fun s disk environment => ?_) hafter.symm (fun _ hlacks => ?_)
      (succeeded_eq_false ?_)
    · rw [Service.handle_of_carries hcarries, Service.submit_of_objection hscreen, hreply]
    · exact hlacks.ne_ok (by omega) hstatus
    · rw [hstatus, ne_eq, Except.ok.injEq]
      omega
  | ok p =>
    cases hpolicy : x.before.policy x.visit.disk x.visit.environment with
    | error e =>
      rw [Service.submit_of_no_policy hscreen hpolicy] at h
      obtain ⟨hafter, hreply⟩ := Prod.mk.inj h
      obtain ⟨hempty, hload⟩ := Service.policy_eq_error hpolicy
      have hlacks : x.reply.LacksPolicy := by
        rw [← hreply]
        split
        · exact .inl (channel.status_lacking _ _)
        · exact .inr ⟨e, rfl⟩
      exact .lacking hlacks hempty hload hafter.symm
        (succeeded_eq_false (hlacks.ne_ok (by decide)))
    | ok found =>
      obtain ⟨naming, t⟩ := found
      obtain ⟨results, hresults, hsubmit⟩ :=
        Service.submit_of_policy channel hscreen hpolicy
      rw [hsubmit] at h
      obtain ⟨rfl, hreply⟩ := Prod.mk.inj h
      have hstatus : x.reply.status = .ok 200 := by rw [← hreply, channel.status_showing]
      have hparse := parse_of_screen hscreen
      exact .analysed
        ⟨hpolicy, channel, source, p, results, hcarries, hparse, hresults, hreply.symm⟩
        (succeeded_eq_true hcarries hstatus)

theorem Faithful.course (h : x.Faithful deliver) : x.Course deliver := by
  unfold Faithful at h
  rcases Service.carries_or_plain (deliver x.visit.request) with
    ⟨channel, source, hcarries⟩ | ⟨hanalysis, reply, hreply, hlacks⟩
  · rw [Service.handle_of_carries hcarries] at h
    exact course_of_carries hcarries h
  · obtain ⟨hafter, rfl⟩ := Prod.mk.inj ((hreply _ _ _).symm.trans h)
    have hfailed : x.succeeded deliver = false := by rw [succeeded, hanalysis, Bool.false_and]
    exact .plain hreply hafter.symm hlacks hfailed

end Exchange

/-! ### Runs of requests -/

namespace Service

variable {ρ : Type} {deliver : ρ → Delivery} {s : Service} {visits : List (Visit ρ)}

/-- The exchanges of a service with its visitors, one after the other. -/
def run (deliver : ρ → Delivery) (s : Service) : List (Visit ρ) → List (Exchange ρ)
  | [] => []
  | v :: rest =>
    let (t, reply) := s.handle v.disk v.environment (deliver v.request)
    ⟨v, s, t, reply⟩ :: t.run deliver rest

theorem run_cons (deliver : ρ → Delivery) (s : Service) (v : Visit ρ) (rest : List (Visit ρ)) :
    ∃ x : Exchange ρ, x.visit = v ∧ x.before = s ∧ x.Faithful deliver ∧
      s.run deliver (v :: rest) = x :: x.after.run deliver rest := by
  let x : Exchange ρ := ⟨v, s, (s.handle v.disk v.environment (deliver v.request)).1,
    (s.handle v.disk v.environment (deliver v.request)).2⟩
  exact ⟨x, rfl, rfl, rfl, rfl⟩

theorem run_cons_of_handle (deliver : ρ → Delivery) {disk : Disk} {environment : Option String}
    {request : ρ} {t : Service} {reply : Reply}
    (h : s.handle disk environment (deliver request) = (t, reply)) (rest : List (Visit ρ)) :
    s.run deliver (⟨disk, environment, request⟩ :: rest) =
      ⟨⟨disk, environment, request⟩, s, t, reply⟩ :: t.run deliver rest := by
  rw [run, h]

theorem faithful_of_mem_run {x : Exchange ρ} (h : x ∈ s.run deliver visits) : x.Faithful deliver := by
  induction visits generalizing s with
  | nil => cases h
  | cons v rest ih =>
    obtain ⟨y, -, -, hy, hrun⟩ := s.run_cons deliver v rest
    rw [hrun] at h
    rcases List.mem_cons.mp h with rfl | h
    · exact hy
    · exact ih h

theorem map_visit_run (s : Service) (visits : List (Visit ρ)) :
    (s.run deliver visits).map (·.visit) = visits := by
  induction visits generalizing s with
  | nil => rfl
  | cons v rest ih =>
    obtain ⟨x, rfl, -, -, hrun⟩ := s.run_cons deliver v rest
    rw [hrun, List.map_cons, ih]

/-- What follows an exchange is the run of the service that it leaves. -/
theorem run_later {earlier later : List (Exchange ρ)} {x : Exchange ρ}
    (h : s.run deliver visits = earlier ++ x :: later) :
    later = x.after.run deliver (later.map (·.visit)) := by
  induction visits generalizing s earlier with
  | nil => simp [run] at h
  | cons v rest ih =>
    obtain ⟨y, -, -, -, hrun⟩ := s.run_cons deliver v rest
    rw [hrun] at h
    cases earlier with
    | nil =>
      obtain ⟨rfl, rfl⟩ := List.cons.inj h
      rw [map_visit_run]
    | cons z earlier =>
      obtain ⟨rfl, hrest⟩ := List.cons.inj h
      exact ih hrest

/-- A convention that the service has is used by all analyses. -/
theorem run_of_cached {naming : Naming} (h : s.naming = some naming) :
    ∀ x ∈ s.run deliver visits, x.succeeded deliver = true → x.Uses deliver naming := by
  induction visits generalizing s with
  | nil => exact fun _ hx => absurd hx List.not_mem_nil
  | cons v rest ih =>
    obtain ⟨x, rfl, rfl, hx, hrun⟩ := s.run_cons deliver v rest
    rw [hrun, List.forall_mem_cons]
    cases hx.course with
    | plain _ hafter _ hfailed =>
      exact ⟨fun hdone => absurd hdone (by simp [hfailed]), ih (hafter ▸ h)⟩
    | lacking _ hempty =>
      rw [hempty] at h
      cases h
    | analysed huses _ =>
      have hpolicy := huses.policy
      rw [policy_of_cached h] at hpolicy
      obtain ⟨rfl, hafter⟩ := Prod.mk.inj (Except.ok.inj hpolicy)
      exact ⟨fun _ => huses, ih (hafter ▸ h)⟩

/-- Without a convention, the first analysis reads the one that all of them use. -/
theorem run_of_empty (h : s.naming = none) {first : Exchange ρ}
    (hfirst : (s.run deliver visits).find? (·.succeeded deliver) = some first) :
    ∃ loaded, loadNaming first.visit.disk first.visit.environment none = .ok loaded ∧
      ∀ x ∈ s.run deliver visits, x.succeeded deliver = true →
        x.Uses deliver loaded.naming := by
  induction visits generalizing s with
  | nil => cases hfirst
  | cons v rest ih =>
    obtain ⟨x, rfl, rfl, hx, hrun⟩ := s.run_cons deliver v rest
    rw [hrun] at hfirst ⊢
    -- An exchange without results leaves the service empty, and the first analysis is later.
    have hlater (hafter : x.after = x.before) (hfailed : x.succeeded deliver = false) :
        ∃ loaded, loadNaming first.visit.disk first.visit.environment none = .ok loaded ∧
          ∀ y ∈ x :: x.after.run deliver rest, y.succeeded deliver = true →
            y.Uses deliver loaded.naming := by
      rw [List.find?_cons_of_neg (by simp [hfailed])] at hfirst
      obtain ⟨loaded, hload, huses⟩ := ih (hafter ▸ h) hfirst
      have hnot : x.succeeded deliver = true → x.Uses deliver loaded.naming := by
        rw [hfailed]
        exact nofun
      exact ⟨loaded, hload, List.forall_mem_cons.mpr ⟨hnot, huses⟩⟩
    cases hx.course with
    | plain _ hafter _ hfailed => exact hlater hafter hfailed
    | lacking _ _ _ hafter hfailed => exact hlater hafter hfailed
    | analysed huses hsucceeded =>
      obtain ⟨hcached, loaded, hload, rfl⟩ := policy_of_empty h huses.policy
      rw [List.find?_cons_of_pos hsucceeded] at hfirst
      cases hfirst
      exact ⟨loaded, hload, List.forall_mem_cons.mpr ⟨fun _ => huses, run_of_cached hcached⟩⟩

/-- Over a whole run of a service that starts without a naming convention, whatever happens to the
files and the environment, and whatever the service is handed of the requests: all analyses use the
convention that the first of them has read; a request that reaches the service and finds no
convention leaves it as at the start; what is answered 400 or 413, as every source text that is
blank, too long or wrong, is answered so by any service with any files; and a source text gets the
same status in a form and in JSON. -/
theorem policy_settled_once {ρ : Type} (deliver : ρ → Delivery) (visits : List (Visit ρ)) :
    let log := ({} : Service).run deliver visits
    (∀ first, log.find? (·.succeeded deliver) = some first →
      ∃ loaded, loadNaming first.visit.disk first.visit.environment none = .ok loaded ∧
        ∀ x ∈ log, x.succeeded deliver = true → x.Uses deliver loaded.naming) ∧
    (∀ earlier x later, log = earlier ++ x :: later →
      (deliver x.visit.request).isSettled = false → x.reply.LacksPolicy →
      (∃ e, loadNaming x.visit.disk x.visit.environment none = .error e) ∧
      x.before.naming = none ∧ x.after.naming = none ∧
      later = ({} : Service).run deliver (later.map (·.visit))) ∧
    (∀ x ∈ log,
      (x.reply.status = .ok 400 ∨ x.reply.status = .ok 413 →
        x.after = x.before ∧ ∀ (s : Service) disk environment,
          s.handle disk environment (deliver x.visit.request) = (s, x.reply)) ∧
      ∀ channel source, (deliver x.visit.request).Carries channel source →
        (Text.isBlank source = true ∨ maxSourceLength < source.length ∨
          ∃ d, Protocol.parse source = .error d) →
        x.reply.status = .ok 400 ∨ x.reply.status = .ok 413) ∧
    ∀ (s : Service) disk environment form json source,
      (deliver form).Carries .form source → (deliver json).Carries .json source →
      (s.handle disk environment (deliver form)).2.status =
          (s.handle disk environment (deliver json)).2.status ∧
        (s.handle disk environment (deliver form)).1 =
          (s.handle disk environment (deliver json)).1 := by
  intro log
  refine ⟨fun first hfirst => run_of_empty rfl hfirst, fun earlier x later hlog hserved hlacks => ?_,
    fun x hx => ⟨fun hstatus => ?_, fun channel source hcarries hwrong => ?_⟩,
    fun s disk environment form json source hform hjson => ?_⟩
  · have hlater := run_later hlog
    have hx : x ∈ log := by rw [hlog]; simp
    cases (faithful_of_mem_run hx).course with
    | plain _ _ hnot => exact absurd hlacks (hnot hserved)
    | lacking _ hempty hload hafter =>
      have hstart : x.after = {} := by
        rw [hafter]
        exact congrArg Service.mk hempty
      rw [hstart] at hlater
      exact ⟨⟨_, hload⟩, hempty, by rw [hstart], hlater⟩
    | analysed _ hsucceeded =>
      exact absurd (Exchange.status_of_succeeded hsucceeded) (hlacks.ne_ok (by decide))
  · cases (faithful_of_mem_run hx).course with
    | plain hreply hafter => exact ⟨hafter, hreply⟩
    | lacking hlacks =>
      rcases hstatus with h | h
      · exact absurd h (hlacks.ne_ok (by decide))
      · exact absurd h (hlacks.ne_ok (by decide))
    | analysed _ hsucceeded =>
      rw [Exchange.status_of_succeeded hsucceeded] at hstatus
      simp at hstatus
  · obtain ⟨objection, hscreen⟩ := exists_objection hwrong
    have hx := faithful_of_mem_run hx
    rw [Exchange.Faithful, handle_of_carries hcarries, submit_of_objection hscreen] at hx
    rw [← (Prod.mk.inj hx).2, channel.status_refusal]
    rcases objection.status_cases with h | h
    · exact .inl (by rw [h])
    · exact .inr (by rw [h])
  · rw [handle_of_carries hform, handle_of_carries hjson]
    exact submit_alike s disk environment .form .json source

/-- A ciphertext under a public key. Whether the private key opens it is up to the convention. -/
def paired : String :=
  "roles: A, B public key pubA: A private key skA: A B -> A: Enc(pubA, m)"

def pairedProtocol : Protocol where
  roles := ["A", "B"]
  keys := [⟨.publicHalf, "pubA", ["A"]⟩, ⟨.privateHalf, "skA", ["A"]⟩]
  messages := [⟨"B", "A", .enc "pubA" (.ident "m")⟩]

/-- A convention in which the two keys belong together. -/
def pubNaming : Naming where
  publicStem := "pub"

theorem screen_paired : screen paired = .ok pairedProtocol := by
  have hparse : Protocol.parse paired = .ok pairedProtocol := by decide +kernel
  rw [screen_of_fits (by decide +kernel) (by decide +kernel), hparse]
  rfl

theorem report_paired {naming : Naming} {results : Results}
    (h : pairedProtocol.results naming = .ok results) :
    results.report = ((pairedProtocol.derive naming Protocol.unsorted).state.report
      pairedProtocol naming).format := by
  obtain ⟨a, _, _, ha, -, -, rfl⟩ := Protocol.results_eq_ok h
  exact congrArg Report.format (Protocol.report_analyze Protocol.unsorted (by decide) ha)

/-- The protocol has other results under the built-in convention. -/
theorem showing_paired_ne {results results' : Results}
    (h : pairedProtocol.results pubNaming = .ok results)
    (h' : pairedProtocol.results {} = .ok results') :
    Channel.json.showing paired results ≠ Channel.json.showing paired results' := by
  intro hsame
  simp only [Channel.showing, Results.toJson, Response.mk.injEq, Body.json.injEq,
    Json.object.injEq, List.cons.injEq, Prod.mk.injEq, Json.string.injEq, true_and] at hsame
  have hreport := hsame.1
  rw [report_paired h, report_paired h'] at hreport
  revert hreport
  decide +kernel

/-- A folder with a naming convention in a file. -/
def site (policy : String) : Disk where
  home := ["h"]
  working := ["h"]
  entries := [(["h"], .folder), (["h", "naming.json"], .file (Text.encode policy))]

/-- The protocol in JSON. -/
def jsonRequest : Request where
  method := .post
  target := "/api/analyze"
  contentType := "application/json"
  body := Text.encode ("\x7b\"source\": \"" ++ paired ++ "\"\x7d")

/-- A form with a source text. -/
def formRequest (field : String) : Request where
  method := .post
  target := "/analyze"
  contentType := "application/x-www-form-urlencoded"
  body := Text.encode ("source=" ++ field)

/-- The protocol in a form. -/
def pairedForm : Request :=
  formRequest "roles:+A,+B+public+key+pubA:+A+private+key+skA:+A+B+-%3E+A:+Enc(pubA,+m)"

theorem jsonRequest_carries : jsonRequest.delivery.Carries .json paired := by
  unfold Delivery.Carries
  decide +kernel

theorem jsonRequest_served : jsonRequest.delivery.isSettled = false := by
  decide +kernel

theorem pairedForm_carries : pairedForm.delivery.Carries .form paired := by
  unfold Delivery.Carries
  decide +kernel

/-- The convention in a file. -/
def pubFile : String :=
  "\x7b\"naming\": \x7b\"public_prefix\": \"pub\"\x7d\x7d"

/-- A request while the environment names that file. -/
def visit (policy : String) (request : Request) : Visit Request where
  disk := site policy
  environment := some "naming.json"
  request := request

/-- The file with the convention is broken, then it says something, and then nothing. -/
def changing : List (Visit Request) :=
  [visit "\x7b" jsonRequest, visit pubFile (formRequest "+%0A"), visit pubFile pairedForm,
   visit "\x7b\x7d" jsonRequest]

theorem load_pubFile :
    (loadNaming (site pubFile) (some "naming.json") none).map (·.naming) = .ok pubNaming := by
  decide +kernel

theorem policy_site {policy : String} {naming : Naming}
    (h : (loadNaming (site policy) (some "naming.json") none).map (·.naming) = .ok naming) :
    ({} : Service).policy (site policy) (some "naming.json") = .ok (naming, ⟨some naming⟩) := by
  cases hload : loadNaming (site policy) (some "naming.json") none with
  | error e =>
    rw [hload] at h
    cases h
  | ok loaded =>
    rw [hload] at h
    cases h
    exact policy_of_load rfl hload

/-! The four answers, and the one that a fresh service would give last. -/

theorem handle_broken : ∃ reply : Reply, reply.LacksPolicy ∧
    ({} : Service).handle (site "\x7b") (some "naming.json") jsonRequest.delivery =
      ({}, reply) := by
  have hunreadable : (({} : Service).policy (site "\x7b") (some "naming.json")).map (·.1) =
      .error (.unreadable .malformed) := by decide +kernel
  cases hpolicy : ({} : Service).policy (site "\x7b") (some "naming.json") with
  | ok found =>
    rw [hpolicy] at hunreadable
    cases hunreadable
  | error e =>
    rw [hpolicy] at hunreadable
    cases hunreadable
    rw [handle_of_carries jsonRequest_carries]
    exact ⟨_, .inl rfl, submit_of_no_policy screen_paired hpolicy⟩

theorem handle_blank : ({} : Service).handle (site pubFile) (some "naming.json")
    (formRequest "+%0A").delivery = ({}, .ok (Channel.form.refusal " \n" .missing)) := by
  have hcarries : (formRequest "+%0A").delivery.Carries .form " \n" := by
    unfold Delivery.Carries
    decide +kernel
  rw [handle_of_carries hcarries]
  exact submit_of_objection rfl

theorem handle_first : ∃ results, pairedProtocol.results pubNaming = .ok results ∧
    ({} : Service).handle (site pubFile) (some "naming.json") pairedForm.delivery =
      (⟨some pubNaming⟩, .ok (Channel.form.showing paired results)) := by
  rw [handle_of_carries pairedForm_carries]
  exact submit_of_policy .form screen_paired (policy_site load_pubFile)

theorem handle_last : ∃ results, pairedProtocol.results pubNaming = .ok results ∧
    (⟨some pubNaming⟩ : Service).handle (site "\x7b\x7d") (some "naming.json")
      jsonRequest.delivery =
      (⟨some pubNaming⟩, .ok (Channel.json.showing paired results)) := by
  rw [handle_of_carries jsonRequest_carries]
  exact submit_of_policy .json screen_paired (policy_of_cached rfl)

theorem handle_fresh : ∃ results, pairedProtocol.results {} = .ok results ∧
    ({} : Service).handle (site "\x7b\x7d") (some "naming.json") jsonRequest.delivery =
      (⟨some {}⟩, .ok (Channel.json.showing paired results)) := by
  rw [handle_of_carries jsonRequest_carries]
  exact submit_of_policy .json screen_paired (policy_site (by decide +kernel))

theorem policy_settled_once_changing :
    ∃ broken blank first last,
      ({} : Service).run Request.delivery changing = [broken, blank, first, last] ∧
      broken.reply.LacksPolicy ∧ broken.after.naming = none ∧
      blank.reply.status = .ok 400 ∧ blank.after = blank.before ∧
      first.Uses Request.delivery pubNaming ∧ last.succeeded Request.delivery = true ∧
      last.Uses Request.delivery pubNaming ∧
      last.reply ≠ (({} : Service).handle last.visit.disk last.visit.environment
        last.visit.request.delivery).2 ∧
      (({} : Service).handle (site pubFile) none pairedForm.delivery).2.status =
        (({} : Service).handle (site pubFile) none jsonRequest.delivery).2.status := by
  obtain ⟨reply, hlacks, h₁⟩ := handle_broken
  obtain ⟨results₁, -, h₃⟩ := handle_first
  obtain ⟨results₂, hresults₂, h₄⟩ := handle_last
  obtain ⟨results₃, hresults₃, h₅⟩ := handle_fresh
  let broken : Exchange Request := ⟨visit "\x7b" jsonRequest, {}, {}, reply⟩
  let blank : Exchange Request := ⟨visit pubFile (formRequest "+%0A"), {}, {},
    .ok (Channel.form.refusal " \n" .missing)⟩
  let first : Exchange Request := ⟨visit pubFile pairedForm, {}, ⟨some pubNaming⟩,
    .ok (Channel.form.showing paired results₁)⟩
  let last : Exchange Request := ⟨visit "\x7b\x7d" jsonRequest, ⟨some pubNaming⟩,
    ⟨some pubNaming⟩, .ok (Channel.json.showing paired results₂)⟩
  have hrun : ({} : Service).run Request.delivery changing = [broken, blank, first, last] := by
    unfold changing visit
    rw [run_cons_of_handle _ h₁, run_cons_of_handle _ handle_blank, run_cons_of_handle _ h₃,
      run_cons_of_handle _ h₄]
    rfl
  have hbroken : broken.succeeded Request.delivery = false :=
    Exchange.succeeded_eq_false (hlacks.ne_ok (by decide))
  have hblank : blank.succeeded Request.delivery = false := Exchange.succeeded_eq_false nofun
  have hfirst : first.succeeded Request.delivery = true :=
    Exchange.succeeded_eq_true pairedForm_carries (Channel.form.status_showing _ _)
  have hlast : last.succeeded Request.delivery = true :=
    Exchange.succeeded_eq_true jsonRequest_carries (Channel.json.status_showing _ _)
  obtain ⟨huses, hunread, hrefused, halike⟩ := policy_settled_once Request.delivery changing
  rw [hrun] at huses hunread hrefused
  obtain ⟨loaded, hload, hall⟩ := huses first (by simp [hbroken, hblank, hfirst])
  have hpub : loaded.naming = pubNaming := by
    have hpolicy := (hall first (by simp) hfirst).policy.symm.trans (policy_site load_pubFile)
    exact (Prod.mk.inj (Except.ok.inj hpolicy)).1
  rw [hpub] at hall
  refine ⟨broken, blank, first, last, hrun, hlacks, (hunread [] _ _ rfl jsonRequest_served hlacks).2.2.1, rfl,
    ((hrefused blank (by simp)).1 (.inl rfl)).1, hall first (by simp) hfirst, hlast,
    hall last (by simp) hlast, ?_, (halike _ _ _ _ _ _ pairedForm_carries jsonRequest_carries).1⟩
  -- A service that read the file again would not open the ciphertext.
  rw [show (({} : Service).handle last.visit.disk last.visit.environment
    last.visit.request.delivery).2 = .ok (Channel.json.showing paired results₃) from
    congrArg Prod.snd h₅]
  exact fun hsame => showing_paired_ne hresults₂ hresults₃ (Except.ok.inj hsame)

end Service

end Wiretap
