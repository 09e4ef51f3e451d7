import CodeWeaknesses.Submissions.Judge

/-!
# `JudgeEngineService.executeCode`

Model of `executeCode` and of what it calls in `submissions/judge/judge-engine.service.ts`.
What Docker, the attached stream, the timer and the clock do during one execution is a
`Docker`. The log lines are left out.

Results:
* `executeCode_outcome`: `executeCode` always returns, in one of five ways.
* `executeCode_noFalseSuccess_iff`: **exactly when a run that did not finish is no success.**
-/

namespace CodeWeaknesses.Submissions

/-! ## Docker -/

/-- What a promise of the client is rejected with; `message` is `none` for a value that is
    not an `Error`. -/
structure Rejection where
  statusCode : Option ℕ
  message : Option String
  deriving DecidableEq, Repr

/-- `createOptions` (lines 69–86). -/
structure CreateOptions where
  image : String
  env : List String
  cmd : List String
  attachStdout : Bool
  attachStderr : Bool
  tty : Bool
  memory : ℕ
  memorySwap : ℕ
  cpuQuota : ℕ
  readonlyRootfs : Bool
  networkDisabled : Bool

/-- How the attached stream goes on: it ends after these texts, fails, or neither. -/
inductive StreamEvent where
  | ended (output error : String)
  | failed (err : Rejection)
  | silent

/-- What `container.stats` does: it throws, calls back with an error or unreadable stats, or
    calls back with the memory in use (0 when the stats do not say). -/
inductive StatsAnswer where
  | throws (err : Rejection)
  | fails
  | usage (bytes : ℕ)

/-- What the outside does during one execution. `killAgain` is the `kill` of the inner `catch`;
    `timerFirst` tells whether the timer fires before `readStream` settles; the clock is read at the
    start, after the race and in the outer `catch`. -/
structure Docker where
  createContainer : CreateOptions → Except Rejection Unit
  pull : String → Except Rejection Unit
  createContainerAgain : CreateOptions → Except Rejection Unit
  attach : Except Rejection Unit
  start : Except Rejection Unit
  stream : StreamEvent
  wait : Except Rejection Unit
  timerFirst : Bool
  kill : Except Rejection Unit
  killAgain : Except Rejection Unit
  stats : StatsAnswer
  remove : Except Rejection Unit
  startTime : Date
  endTime : Date
  failTime : Date

/-- `submissionTimeout` and `memoryLimit`, from the environment (lines 47–51). -/
structure JudgeConfig where
  submissionTimeout : ℕ
  memoryLimit : ℕ

/-! ## Images and commands -/

/-- `getImageForLanguage` (lines 217–235). -/
def getImageForLanguage : SubmissionLanguage → String
  | .javascript => "node:22-alpine"
  | .python => "python:3.11-alpine"
  | .python3 => "python:3.11-alpine"
  | .cpp => "gcc:latest"
  | .c => "gcc:latest"
  | .java => "openjdk:21-jdk-alpine"
  | .bash => "alpine:latest"

/-- The shell line that compiles and runs C and C++ programs. -/
def compileC : String :=
  "printf \"%s\" \"$CODE\" > /tmp/prog.c && gcc -xc /tmp/prog.c -o /tmp/prog && " ++
    "printf \"%s\" \"$INPUT\" | /tmp/prog"

/-- `getCommandForLanguage` (lines 240–263). -/
def getCommandForLanguage : SubmissionLanguage → List String
  | .javascript => ["sh", "-c", "printf \"%s\" \"$INPUT\" | node -e \"eval(process.env.CODE)\""]
  | .python | .python3 =>
    ["sh", "-c", "printf \"%s\" \"$INPUT\" | python -c \"import os; exec(os.environ['CODE'])\""]
  | .cpp | .c => ["sh", "-c", compileC]
  | .java =>
    ["sh", "-c",
      "printf \"%s\" \"$CODE\" > Main.java && javac Main.java && printf \"%s\" \"$INPUT\" | java Main"]
  | .bash => ["sh", "-c", "printf \"%s\" \"$INPUT\" | sh -c \"$CODE\""]

/-- The options of the container. -/
def createOptions (cfg : JudgeConfig) (language : SubmissionLanguage) (code input : String) : CreateOptions :=
  { image := getImageForLanguage language
    env := ["CODE=" ++ code, "INPUT=" ++ input]
    cmd := getCommandForLanguage language
    attachStdout := true
    attachStderr := true
    tty := false
    memory := cfg.memoryLimit
    memorySwap := cfg.memoryLimit
    cpuQuota := 100000
    readonlyRootfs := true
    networkDisabled := true }

/-! ## `executeCode` -/

/-- Lines 88–109: the container, its image pulled first when it is missing. -/
def getContainer (d : Docker) (options : CreateOptions) : Except Rejection Unit :=
  tryCatch (d.createContainer options) fun err =>
    if err.statusCode = some 404 then do
      d.pull options.image
      d.createContainerAgain options
    else throw err

/-- `readStream` (lines 265–297): the two texts once the stream has ended and the container has
    stopped. `none`: it never settles, also when `wait` rejects in the listener. -/
def readStream (d : Docker) : Option (Except Rejection (String × String)) :=
  match d.stream, d.wait with
  | .ended output error, .ok _ => some (.ok (output, error))
  | .ended .., .error _ => none
  | .failed err, _ => some (.error err)
  | .silent, _ => none

/-- What the race is won with. -/
inductive RaceResult where
  | timeout
  | texts (output error : String)

/-- `Promise.race([readStream(…), timeoutPromise(…)])` (lines 127–130). -/
def race (d : Docker) : Except Rejection RaceResult :=
  match readStream d with
  | none => .ok .timeout
  | some (.ok (output, error)) => if d.timerFirst then .ok .timeout else .ok (.texts output error)
  | some (.error err) => if d.timerFirst then .ok .timeout else .error err

/-- The result returned on a timeout (lines 135–143). -/
def timeoutResult (cfg : JudgeConfig) : ExecutionResult :=
  { success := false
    output := ""
    error := some ("Execution timeout exceeded " ++ toString cfg.submissionTimeout ++ "ms")
    executionTime := cfg.submissionTimeout
    memoryUsed := 0
    timedOut := true
    memoryExceeded := false }

/-- The inner `try` (lines 126–149): a result to return, or the texts to go on with. -/
def awaitContainer (cfg : JudgeConfig) (d : Docker) : Except Rejection (ExecutionResult ⊕ String × String) :=
  tryCatch
    (do
      match ← race d with
      | .timeout =>
        d.kill
        pure (.inl (timeoutResult cfg))
      | .texts output error => pure (.inr (output, error)))
    fun _ => do
      tryCatch d.killAgain fun _ => pure ()
      pure (.inr ("", ""))

/-- `(await this.getContainerStats(container)).memory_stats?.usage || 0` (lines 154–155, 302–329).
    What `stats` throws leaves the promise it is called in, not the `try` around that. -/
def memoryUsage (d : Docker) : Except Rejection ℕ :=
  match d.stats with
  | .throws err => .error err
  | .fails => .ok 0
  | .usage bytes => .ok bytes

/-- `text.trim()`. -/
def trim (text : String) : String := String.ofList (jsTrim text.toList)

/-- The result returned after the race (lines 151–170). -/
def finishedResult (cfg : JudgeConfig) (d : Docker) (output error : String) (memoryUsed : ℕ) : ExecutionResult :=
  let memoryExceeded := decide (memoryUsed > cfg.memoryLimit)
  { success := decide (error = "") && !memoryExceeded
    output := trim output
    error :=
      if error ≠ "" then some (trim error)
      else if memoryExceeded then some "Memory limit exceeded"
      else none
    executionTime := d.endTime - d.startTime
    memoryUsed := memoryUsed
    timedOut := false
    memoryExceeded := memoryExceeded }

/-- The result of the outer `catch` (lines 171–181). -/
def failureResult (d : Docker) (err : Rejection) : ExecutionResult :=
  { success := false
    output := ""
    error := some (err.message.getD "Unknown execution error")
    executionTime := d.failTime - d.startTime
    memoryUsed := 0
    timedOut := false
    memoryExceeded := false }

/-- The outer `try` (lines 65–170). -/
def runContainer (cfg : JudgeConfig) (d : Docker) (options : CreateOptions) : Except Rejection ExecutionResult := do
  getContainer d options
  d.attach
  d.start
  match ← awaitContainer cfg d with
  | .inl result => pure result
  | .inr (output, error) =>
    let memoryUsed ← memoryUsage d
    pure (finishedResult cfg d output error memoryUsed)

/-- The `finally` block (lines 182–191). -/
def cleanUp (d : Docker) (options : CreateOptions) : Except Rejection Unit :=
  match getContainer d options with
  | .ok _ => tryCatch d.remove fun _ => pure ()
  | .error _ => pure ()

/-- `executeCode` (lines 57–192). -/
def executeCode (cfg : JudgeConfig) (d : Docker) (language : SubmissionLanguage) (code input : String) :
    Except Rejection ExecutionResult := do
  let options := createOptions cfg language code input
  let result ← tryCatch (runContainer cfg d options) fun err => pure (failureResult d err)
  cleanUp d options
  pure result

/-! ## Its outcomes -/

/-- The container runs: it was created, attached to and started. -/
structure Started (d : Docker) (options : CreateOptions) : Prop where
  created : getContainer d options = .ok ()
  attached : d.attach = .ok ()
  started : d.start = .ok ()

/-- The inner `catch` swallows an error: the stream failed, or the container could not be killed
    after a timeout. -/
def Swallowed (d : Docker) : Prop :=
  (∃ err, race d = .error err) ∨ race d = .ok .timeout ∧ ∃ err, d.kill = .error err

/-- How `executeCode` ends. -/
inductive Outcome (cfg : JudgeConfig) (d : Docker) (options : CreateOptions) : ExecutionResult → Prop
  | refused (err : Rejection) (h : ¬ Started d options) : Outcome cfg d options (failureResult d err)
  | timedOut (h : Started d options) (hrace : race d = .ok .timeout) (hkill : d.kill = .ok ()) :
      Outcome cfg d options (timeoutResult cfg)
  | finished (output error : String) (n : ℕ) (h : Started d options)
      (hrace : race d = .ok (.texts output error)) (hstats : memoryUsage d = .ok n) :
      Outcome cfg d options (finishedResult cfg d output error n)
  | swallowed (n : ℕ) (h : Started d options) (hswallowed : Swallowed d) (hstats : memoryUsage d = .ok n) :
      Outcome cfg d options (finishedResult cfg d "" "" n)
  | noStats (err : Rejection) (h : Started d options) (hrace : race d = .ok .timeout → ∃ err, d.kill = .error err)
      (hstats : memoryUsage d = .error err) : Outcome cfg d options (failureResult d err)

theorem cleanUp_eq (d : Docker) (options : CreateOptions) : cleanUp d options = .ok () := by
  unfold cleanUp
  cases getContainer d options with
  | error err => rfl
  | ok u => cases d.remove <;> rfl

theorem executeCode_eq (cfg : JudgeConfig) (d : Docker) (language : SubmissionLanguage) (code input : String) :
    executeCode cfg d language code input =
      .ok (match runContainer cfg d (createOptions cfg language code input) with
        | .ok result => result
        | .error err => failureResult d err) := by
  unfold executeCode
  simp only [cleanUp_eq]
  cases runContainer cfg d (createOptions cfg language code input) <;> rfl

/-- A run that has not started ends in the outer `catch`. -/
theorem runContainer_of_not_started {cfg : JudgeConfig} {d : Docker} {options : CreateOptions}
    (h : ¬ Started d options) : ∃ err, runContainer cfg d options = .error err := by
  unfold runContainer
  cases hcreate : getContainer d options with
  | error err => exact ⟨err, rfl⟩
  | ok u =>
    cases hattach : d.attach with
    | error err => exact ⟨err, rfl⟩
    | ok u =>
      cases hstart : d.start with
      | error err => exact ⟨err, rfl⟩
      | ok u => exact absurd ⟨hcreate, hattach, hstart⟩ h

/-- After the start, the race decides. -/
theorem runContainer_of_started {cfg : JudgeConfig} {d : Docker} {options : CreateOptions}
    (h : Started d options) : runContainer cfg d options =
      (awaitContainer cfg d).bind fun
        | .inl result => .ok result
        | .inr (output, error) => (memoryUsage d).bind fun n => .ok (finishedResult cfg d output error n) := by
  unfold runContainer
  rw [h.created, h.attached, h.started]
  rfl

/-- The inner `try`, by how the race ends. -/
theorem awaitContainer_of_texts {cfg : JudgeConfig} {d : Docker} {output error : String}
    (h : race d = .ok (.texts output error)) : awaitContainer cfg d = .ok (.inr (output, error)) := by
  unfold awaitContainer
  rw [h]
  rfl

theorem awaitContainer_of_killed {cfg : JudgeConfig} {d : Docker} (h : race d = .ok .timeout)
    (hkill : d.kill = .ok ()) : awaitContainer cfg d = .ok (.inl (timeoutResult cfg)) := by
  unfold awaitContainer
  rw [h, hkill]
  rfl

theorem awaitContainer_of_swallowed {cfg : JudgeConfig} {d : Docker} (h : Swallowed d) :
    awaitContainer cfg d = .ok (.inr ("", "")) := by
  unfold awaitContainer
  rcases h with ⟨err, herr⟩ | ⟨htimeout, err, herr⟩
  · rw [herr]
    cases d.killAgain <;> rfl
  · rw [htimeout, herr]
    cases d.killAgain <;> rfl

/-- The race is won by the timer, lost by a failing stream, or won by the texts. -/
theorem race_cases (d : Docker) : race d = .ok .timeout ∧ d.kill = .ok () ∨ Swallowed d ∨
    ∃ output error, race d = .ok (.texts output error) := by
  cases hrace : race d with
  | error err => exact .inr (.inl (.inl ⟨err, hrace⟩))
  | ok result =>
    cases result with
    | texts output error => exact .inr (.inr ⟨output, error, rfl⟩)
    | timeout =>
      cases hkill : d.kill with
      | ok u => exact .inl ⟨rfl, rfl⟩
      | error err => exact .inr (.inl (.inr ⟨hrace, err, hkill⟩))

/-- `executeCode` always returns, in one of the five ways. -/
theorem executeCode_outcome (cfg : JudgeConfig) (d : Docker) (language : SubmissionLanguage)
    (code input : String) : ∃ result, executeCode cfg d language code input = .ok result ∧
      Outcome cfg d (createOptions cfg language code input) result := by
  rw [executeCode_eq]
  refine ⟨_, rfl, ?_⟩
  generalize createOptions cfg language code input = options
  by_cases h : Started d options
  · rw [runContainer_of_started h]
    rcases race_cases d with ⟨htimeout, hkill⟩ | hswallowed | ⟨output, error, htexts⟩
    · rw [awaitContainer_of_killed htimeout hkill]
      exact .timedOut h htimeout hkill
    · rw [awaitContainer_of_swallowed hswallowed]
      cases hstats : memoryUsage d with
      | ok n => exact .swallowed n h hswallowed hstats
      | error err =>
        refine .noStats err h (fun htimeout => ?_) hstats
        rcases hswallowed with ⟨err', herr⟩ | ⟨_, hkill⟩
        · rw [herr] at htimeout
          cases htimeout
        · exact hkill
    · rw [awaitContainer_of_texts htexts]
      cases hstats : memoryUsage d with
      | ok n => exact .finished output error n h htexts hstats
      | error err =>
        refine .noStats err h (fun htimeout => ?_) hstats
        rw [htexts] at htimeout
        cases htimeout
  · obtain ⟨err, herr⟩ := @runContainer_of_not_started cfg d options h
    rw [herr]
    exact .refused err h

/-! ## Success -/

/-- What a result says about the run: it is a success only if the stream ended normally before the
    timer with nothing on stderr and the memory in the limit, and a timeout is reported as one. -/
structure NoFalseSuccess (cfg : JudgeConfig) (d : Docker) (options : CreateOptions) (result : ExecutionResult) :
    Prop where
  success : result.success = true →
    (Started d options ∧ ∃ output, race d = .ok (.texts output "")) ∧ result.memoryUsed ≤ cfg.memoryLimit
  timeout : Started d options → race d = .ok .timeout → result.success = false ∧ result.timedOut = true

/-- A container that is too slow can be killed, and a failing stream comes with too much memory in
    use, or with no stats. -/
structure FailsLoudly (cfg : JudgeConfig) (d : Docker) (options : CreateOptions) : Prop where
  kill : Started d options → race d = .ok .timeout → d.kill = .ok ()
  stream : Started d options → ∀ err, race d = .error err → ∀ n, memoryUsage d = .ok n → cfg.memoryLimit < n

theorem finishedResult_success_iff {cfg : JudgeConfig} {d : Docker} {output error : String} {n : ℕ} :
    (finishedResult cfg d output error n).success = true ↔ error = "" ∧ n ≤ cfg.memoryLimit := by
  simp [finishedResult]

theorem Outcome.noFalseSuccess_iff {cfg : JudgeConfig} {d : Docker} {options : CreateOptions}
    {result : ExecutionResult} (h : Outcome cfg d options result) :
    NoFalseSuccess cfg d options result ↔ FailsLoudly cfg d options := by
  cases h with
  | refused err h =>
    constructor
    · exact fun _ => ⟨fun hs => absurd hs h, fun hs => absurd hs h⟩
    · refine fun _ => ⟨fun hsuccess => ?_, fun hs => absurd hs h⟩
      cases hsuccess
  | timedOut h hrace hkill =>
    constructor
    · refine fun _ => ⟨fun _ _ => hkill, fun _ err herr => ?_⟩
      cases hrace.symm.trans herr
    · refine fun _ => ⟨fun hsuccess => ?_, fun _ _ => ⟨rfl, rfl⟩⟩
      cases hsuccess
  | finished output error n h hrace hstats =>
    constructor
    · refine fun _ => ⟨fun _ htimeout => ?_, fun _ err herr => ?_⟩
      · cases hrace.symm.trans htimeout
      · cases hrace.symm.trans herr
    · refine fun _ => ⟨fun hsuccess => ?_, fun _ htimeout => ?_⟩
      · obtain ⟨rfl, hle⟩ := finishedResult_success_iff.mp hsuccess
        exact ⟨⟨h, output, hrace⟩, hle⟩
      · cases hrace.symm.trans htimeout
  | swallowed n h hswallowed hstats =>
    constructor
    · intro hresult
      rcases hswallowed with ⟨err, herr⟩ | ⟨htimeout, _⟩
      · refine ⟨fun _ htimeout => ?_, fun _ _ _ n' hn' => ?_⟩
        · cases herr.symm.trans htimeout
        · -- with memory to spare this would be a success
          cases hstats.symm.trans hn'
          by_contra hle
          obtain ⟨⟨_, output, htexts⟩, _⟩ := hresult.success (finishedResult_success_iff.mpr ⟨rfl, not_lt.mp hle⟩)
          cases herr.symm.trans htexts
      · obtain ⟨_, htimedOut⟩ := hresult.timeout h htimeout
        cases htimedOut
    · intro hloud
      rcases hswallowed with ⟨err, herr⟩ | ⟨htimeout, err, hkill⟩
      · refine ⟨fun hsuccess => ?_, fun _ htimeout => ?_⟩
        · have hlt := hloud.stream h err herr n hstats
          exact absurd (finishedResult_success_iff.mp hsuccess).2 (not_le.mpr hlt)
        · cases herr.symm.trans htimeout
      · cases hkill.symm.trans (hloud.kill h htimeout)
  | noStats err h hrace hstats =>
    constructor
    · intro hresult
      refine ⟨fun _ htimeout => ?_, fun _ _ _ n hn => ?_⟩
      · obtain ⟨_, htimedOut⟩ := hresult.timeout h htimeout
        cases htimedOut
      · cases hstats.symm.trans hn
    · intro hloud
      refine ⟨fun hsuccess => ?_, fun _ htimeout => ?_⟩
      · cases hsuccess
      · obtain ⟨err', hkill⟩ := hrace htimeout
        cases hkill.symm.trans (hloud.kill h htimeout)

/-- **Main**: `executeCode` returns, and its result calls no run a success that did not finish and
    no timeout anything else, iff a timed-out container can be killed and a failing stream comes
    with too much memory in use or without stats. -/
theorem executeCode_noFalseSuccess_iff (cfg : JudgeConfig) (d : Docker) (language : SubmissionLanguage)
    (code input : String) : ∃ result, executeCode cfg d language code input = .ok result ∧
      (NoFalseSuccess cfg d (createOptions cfg language code input) result ↔
        FailsLoudly cfg d (createOptions cfg language code input)) := by
  obtain ⟨result, hresult, houtcome⟩ := executeCode_outcome cfg d language code input
  exact ⟨result, hresult, houtcome.noFalseSuccess_iff⟩

/-- The defaults of the configuration. -/
def defaults : JudgeConfig := ⟨5000, 268435456⟩

/-- A program that prints `output` in `elapsed` milliseconds. -/
def printing (output : String) (elapsed : ℤ) : Docker where
  createContainer := fun _ => .ok ()
  pull := fun _ => .ok ()
  createContainerAgain := fun _ => .ok ()
  attach := .ok ()
  start := .ok ()
  stream := .ended output ""
  wait := .ok ()
  timerFirst := false
  kill := .ok ()
  killAgain := .ok ()
  stats := .usage 1048576
  remove := .ok ()
  startTime := 0
  endTime := elapsed
  failTime := elapsed

/-- The program runs into the timeout, and its container is gone before it can be killed. -/
def unkillable : Docker :=
  { printing "" 5003 with stream := .silent, timerFirst := true, kill := .error ⟨some 409, some "not running"⟩ }

/-- The timer wins, yet the run is reported as a success without a timeout. -/
theorem unkillable_succeeds : ∃ result, executeCode defaults unkillable .python "while True: pass" "" = .ok result ∧
    result.success = true ∧ result.timedOut = false ∧
    ¬ NoFalseSuccess defaults unkillable (createOptions defaults .python "while True: pass" "") result := by
  refine ⟨finishedResult defaults unkillable "" "" 1048576, rfl, rfl, rfl, fun h => ?_⟩
  obtain ⟨hsuccess, _⟩ := h.timeout ⟨rfl, rfl, rfl⟩ rfl
  cases hsuccess

end CodeWeaknesses.Submissions
