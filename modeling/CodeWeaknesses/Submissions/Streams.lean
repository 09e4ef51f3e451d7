import CodeWeaknesses.Lib.Utf8
import CodeWeaknesses.Submissions.Comparison
import CodeWeaknesses.Submissions.Limits

/-!
# Output in chunks

The listeners of `readStream` in `submissions/judge/judge-engine.service.ts`, byte by byte.
`demuxStream` calls `write` with one buffer after the other, and each of them is decoded by itself
(`data.toString()`), so that a character that is split between two buffers is lost.

Results:
* `texts_output`, `texts_error`: what the listeners have collected.
* `passes_iff`: which runs that end in time pass a test.
* `accepted_iff_aligned`: **a completed job is ACCEPTED iff its program answers every executed test
  right, within the memory limit, with nothing on stderr and with no character split between two
  buffers.**
-/

namespace CodeWeaknesses.Submissions

open Lib Lib.Prog Sse

variable {cfg : JudgeConfig} {options : CreateOptions}

/-! ## The listeners -/

/-- The stream that a buffer comes from. -/
inductive Output where
  | stdout
  | stderr
  deriving DecidableEq, Repr

/-- The variables of `readStream`. -/
structure Texts where
  output : String
  error : String

/-- `data.toString()`. -/
def bufferToString (data : List UInt8) : String := String.ofList (Utf8.decode data)

/-- The two `write` listeners (lines 276–284). -/
def Texts.write (texts : Texts) (written : Output × List UInt8) : Texts :=
  match written.1 with
  | .stdout => { texts with output := texts.output ++ bufferToString written.2 }
  | .stderr => { texts with error := texts.error ++ bufferToString written.2 }

/-- The texts after all writes. -/
def textsOf (writes : List (Output × List UInt8)) : Texts := writes.foldl Texts.write ⟨"", ""⟩

/-- The stream that ends after the writes (lines 287–291). -/
def endedStream (writes : List (Output × List UInt8)) : StreamEvent :=
  .ended (textsOf writes).output (textsOf writes).error

/-- The buffers of one stream. -/
def chunksOf (stream : Output) (writes : List (Output × List UInt8)) : List (List UInt8) :=
  (writes.filter fun written => written.1 = stream).map Prod.snd

/-! ## What they collect -/

theorem foldl_write (writes : List (Output × List UInt8)) : ∀ texts : Texts,
    (writes.foldl Texts.write texts).output.toList =
        texts.output.toList ++ Utf8.decodeChunks (chunksOf .stdout writes) ∧
      (writes.foldl Texts.write texts).error.toList =
        texts.error.toList ++ Utf8.decodeChunks (chunksOf .stderr writes) := by
  induction writes with
  | nil => exact fun texts => ⟨(List.append_nil _).symm, (List.append_nil _).symm⟩
  | cons written writes ih =>
    intro texts
    obtain ⟨houtput, herror⟩ := ih (texts.write written)
    rw [List.foldl_cons, houtput, herror]
    obtain ⟨stream, data⟩ := written
    cases stream with
    | stdout =>
      refine ⟨?_, rfl⟩
      show (texts.output ++ bufferToString data).toList ++ _ = _ ++ (Utf8.decode data ++ _)
      rw [String.toList_append, bufferToString, String.toList_ofList, List.append_assoc]
      rfl
    | stderr =>
      refine ⟨rfl, ?_⟩
      show (texts.error ++ bufferToString data).toList ++ _ = _ ++ (Utf8.decode data ++ _)
      rw [String.toList_append, bufferToString, String.toList_ofList, List.append_assoc]
      rfl

theorem texts_output (writes : List (Output × List UInt8)) :
    (textsOf writes).output.toList = Utf8.decodeChunks (chunksOf .stdout writes) :=
  (foldl_write writes ⟨"", ""⟩).1

theorem texts_error (writes : List (Output × List UInt8)) :
    (textsOf writes).error.toList = Utf8.decodeChunks (chunksOf .stderr writes) :=
  (foldl_write writes ⟨"", ""⟩).2

/-- Nothing is collected of a stream iff no byte was written to it. -/
theorem texts_error_eq_empty_iff (writes : List (Output × List UInt8)) :
    (textsOf writes).error = "" ↔ (chunksOf .stderr writes).flatten = [] := by
  rw [← String.toList_inj, texts_error]
  show (chunksOf .stderr writes).flatMap Utf8.decode = [] ↔ _
  rw [List.flatMap_eq_nil_iff, List.flatten_eq_nil_iff]
  exact forall₂_congr fun chunk _ => Utf8.decode_eq_nil_iff

/-! ## Runs that end in time -/

/-- An execution: what the outside does, what is written, the text on stdout and the memory. -/
structure Run where
  docker : Docker
  writes : List (Output × List UInt8)
  text : String
  memoryUsed : ℕ

/-- The program runs until the stream ends, with the text in UTF-8 on stdout. -/
structure Run.Ends (run : Run) (options : CreateOptions) : Prop where
  started : Started run.docker options
  stream : run.docker.stream = endedStream run.writes
  wait : run.docker.wait = .ok ()
  timer : run.docker.timerFirst = false
  memory : memoryUsage run.docker = .ok run.memoryUsed
  text : (chunksOf .stdout run.writes).flatten = Utf8.encode run.text.toList

/-- The answer is right, with nothing on stderr and the memory in the limit. -/
structure Run.Right (run : Run) (cfg : JudgeConfig) (expected : String) : Prop where
  memory : run.memoryUsed ≤ cfg.memoryLimit
  quiet : (chunksOf .stderr run.writes).flatten = []
  answer : compareOutput run.text expected = true

/-- No character of stdout is split between two buffers. -/
def Run.Aligned (run : Run) : Prop := Utf8.Aligned (chunksOf .stdout run.writes)

theorem Run.Ends.race_eq {run : Run} (h : run.Ends options) :
    race run.docker = .ok (.texts (textsOf run.writes).output (textsOf run.writes).error) := by
  unfold race readStream
  rw [h.stream, h.wait, endedStream]
  simp only [h.timer]
  rfl

/-- What it leaves is what the listeners collected, if they collected no error. -/
theorem Run.Ends.leavesOutput_iff {run : Run} (h : run.Ends options) {output : String} :
    LeavesOutput run.docker output ↔ (textsOf run.writes).output = output ∧ (textsOf run.writes).error = "" := by
  have hrace := h.race_eq
  constructor
  · rintro (htexts | ⟨⟨err, herr⟩ | ⟨htimeout, _⟩, _⟩)
    · rw [hrace] at htexts
      injection htexts with htexts
      injection htexts with houtput herror
      exact ⟨houtput, herror⟩
    · cases hrace.symm.trans herr
    · cases hrace.symm.trans htimeout
  · rintro ⟨rfl, herror⟩
    rw [herror] at hrace
    exact .inl hrace

/-- White space aside, texts that compare equal have the same characters. -/
theorem count_eq_of_compareOutput {a e : String} (h : compareOutput a e = true) {c : Char} (hc : isJsSpace c = false) :
    a.toList.count c = e.toList.count c := by
  rw [compareOutput_iff, keptLines_eq, keptLines_eq] at h
  have hfilter := Lines.filter_eq_of_keptLines (by decide) h
  have hcount := congrArg (List.count c) hfilter
  rwa [List.count_filter (by simp [hc]), List.count_filter (by simp [hc])] at hcount

theorem compareOutput_trim (text expected : String) :
    compareOutput (trim text) expected = compareOutput text expected := by
  rw [Bool.eq_iff_iff, compareOutput_iff, compareOutput_iff, keptLines_trim]

/-- A text that is collected in pieces compares equal to an expected output without U+FFFD iff the
    written one does and no character is split. -/
theorem compareOutput_collected_iff {writes : List (Output × List UInt8)} {text expected : String}
    (htext : (chunksOf .stdout writes).flatten = Utf8.encode text.toList)
    (hexpected : Utf8.replacement ∉ expected.toList) :
    compareOutput (textsOf writes).output expected = true ↔
      compareOutput text expected = true ∧ Utf8.Aligned (chunksOf .stdout writes) := by
  have hmangled := Utf8.decodeChunks_mangled htext
  rw [← Utf8.decodeChunks_eq_iff htext]
  rw [← texts_output] at hmangled ⊢
  constructor
  · intro h
    have hcount := count_eq_of_compareOutput h (c := Utf8.replacement) (by decide)
    rw [List.count_eq_zero_of_not_mem hexpected] at hcount
    rcases hmangled.count_lt with hsame | hlt
    · rw [String.toList_inj.mp hsame]
      exact ⟨h, rfl⟩
    · omega
  · rintro ⟨h, hsame⟩
    rwa [String.toList_inj.mp hsame]

/-- **Main**: a run that ends in time passes a test, whose expected output has no U+FFFD, iff it is
    right and no character is split. -/
theorem passes_iff {run : Run} (h : run.Ends options) {expected : String}
    (hexpected : Utf8.replacement ∉ expected.toList) :
    Passes cfg run.docker options expected ↔ run.Right cfg expected ∧ run.Aligned := by
  constructor
  · rintro ⟨_, ⟨n, hn, hle⟩, output, houtput, hcompare⟩
    obtain ⟨rfl, herror⟩ := h.leavesOutput_iff.mp houtput
    rw [compareOutput_trim, compareOutput_collected_iff h.text hexpected] at hcompare
    cases h.memory.symm.trans hn
    exact ⟨⟨hle, (texts_error_eq_empty_iff _).mp herror, hcompare.1⟩, hcompare.2⟩
  · rintro ⟨hright, haligned⟩
    refine ⟨h.started, ⟨_, h.memory, hright.memory⟩, _,
      h.leavesOutput_iff.mpr ⟨rfl, (texts_error_eq_empty_iff _).mpr hright.quiet⟩, ?_⟩
    rw [compareOutput_trim, compareOutput_collected_iff h.text hexpected]
    exact ⟨hright.answer, haligned⟩

/-! ## Jobs -/

theorem untilFailure_of_passed {es : List Execution} (h : ∀ e ∈ untilFailure es, e.passed = true) :
    untilFailure es = es := by
  induction es with
  | nil => rfl
  | cons e es ih =>
    unfold untilFailure at h ⊢
    split_ifs at h ⊢ with hpassed
    · rw [ih fun e he => h e (List.mem_cons_of_mem _ he)]
    · exact absurd (h e (List.mem_singleton_self e)) hpassed

/-- If all executed tests passed, all tests were executed. -/
theorem map_testCase_of_passed {testCases : List TestCase} {results : ℕ → ExecutionResult}
    (h : ∀ e ∈ executed testCases results, e.passed = true) :
    (executed testCases results).map Execution.testCase =
      (testCases.filter fun testCase => !testCase.isHidden) ++ testCases.filter fun testCase => testCase.isHidden := by
  unfold executed at h ⊢
  simp only at h ⊢
  split_ifs at h ⊢ with hvisible
  · rw [untilFailure_of_passed fun e he => h e (List.mem_append_right _ he), List.map_append, map_testCase_executions,
      map_testCase_executions]
  · exact absurd (List.all_eq_true.mpr h) hvisible

/-- A completed run is ACCEPTED iff every executed test passed. -/
theorem accepted_iff_passed {job : JobData} {w : World} (hne : testCasesOf w job.problemId ≠ []) (cs : ℕ → Choice)
    (s : Submission) :
    (judgedBy job w cs s).status = .accepted ↔ ∀ e ∈ executedBy job w cs, e.passed = true := by
  refine ⟨passed_of_accepted hne, fun h => (judgedBy_status_iff hne cs s).mpr fun testCase htest => ?_⟩
  have hmem : testCase ∈ (executedBy job w cs).map Execution.testCase := by
    have hmap := map_testCase_of_passed h
    unfold executedBy
    rw [hmap]
    exact (filter_append_perm _).mem_iff.mpr htest
  obtain ⟨e, he, rfl⟩ := List.mem_map.mp hmem
  exact ⟨e, he, rfl, h e he⟩

/-- **Main**: when the program ends in time on every executed test, and no expected output has
    U+FFFD in it, a completed job is ACCEPTED iff every run is right and no character is split
    between two buffers. -/
theorem accepted_iff_aligned {job : JobData} {w w' : World} {cs : ℕ → Choice} {res : JobResult}
    {os : List Op} (hexec : Executes answer (processSubmission job) w cs (.ok res) w' os) {run : Execution → Run}
    (hdocker : ∀ e ∈ executedBy job w cs,
      executeCode cfg (run e).docker job.language job.code e.testCase.input = .ok e.result)
    (hends : ∀ e ∈ executedBy job w cs, (run e).Ends (createOptions cfg job.language job.code e.testCase.input))
    (hexpected : ∀ e ∈ executedBy job w cs, Utf8.replacement ∉ e.testCase.expectedOutput.toList) :
    ∃ submission, w'.submissions.find? job.submissionId = some submission ∧
      (submission.status = .accepted ↔
        ∀ e ∈ executedBy job w cs, (run e).Right cfg e.testCase.expectedOutput ∧ (run e).Aligned) := by
  obtain ⟨s, hjudges⟩ := processSubmission_executes hexec
  refine ⟨judgedBy job w cs s, hjudges.find?_eq, ?_⟩
  rw [accepted_iff_passed hjudges.nonempty]
  refine forall₂_congr fun e he => ?_
  obtain ⟨result, hresult, houtcome⟩ := executeCode_outcome cfg (run e).docker job.language job.code e.testCase.input
  cases (hdocker e he).symm.trans hresult
  exact (houtcome.passed_iff e.testCase).trans (passes_iff (hends e he) (hexpected e he))

/-! ## A split character -/

/-- The two bytes of `é` come one by one. -/
def splitWrites : List (Output × List UInt8) := [(.stdout, [0xC3]), (.stdout, [0xA9])]

/-- A program that prints `é`. -/
def splitRun : Run where
  docker := { printing "" 12 with stream := endedStream splitWrites }
  writes := splitWrites
  text := "é"
  memoryUsed := 1048576

/-- Its submission waits; the test expects `é`. -/
def pendingAccent : World :=
  { pendingOne with
    testCases := Table.empty.upsert
      { id := "t1", problemId := "p1", input := "", expectedOutput := "é", isHidden := false, orderIndex := 0 } }

/-- What `executeCode` returns for it. -/
def splitResult : ExecutionResult := finishedResult defaults splitRun.docker "\uFFFD\uFFFD" "" 1048576

theorem not_aligned_splitRun : ¬ splitRun.Aligned := by
  have htext : (chunksOf .stdout splitWrites).flatten = Utf8.encode ['é'] := by decide
  have hread : Utf8.decodeChunks (chunksOf .stdout splitWrites) ≠ ['é'] := by decide
  exact fun haligned => hread ((Utf8.decodeChunks_eq_iff htext).mpr haligned)

/-- The right answer is not accepted. -/
theorem accepted_iff_aligned_split : ∃ submission,
    (eval answer (processSubmission jobOne) pendingAccent (smoothly fun _ => splitResult)).2.submissions.find? "s1" =
      some submission ∧
    splitRun.Right defaults "é" ∧ submission.status ≠ .accepted := by
  have hright : splitRun.Right defaults "é" := ⟨by decide, rfl, (compareOutput_iff _ _).mpr rfl⟩
  have hexec : Executes answer (processSubmission jobOne) pendingAccent (smoothly fun _ => splitResult)
      (.ok ⟨true, "s1", 0, 0⟩) _ _ := ⟨Prod.ext rfl rfl, rfl⟩
  have hends : splitRun.Ends (createOptions defaults .python "print(42)" "") :=
    ⟨⟨rfl, rfl, rfl⟩, rfl, rfl, rfl, rfl, by decide⟩
  obtain ⟨submission, hsubmission, hiff⟩ := @accepted_iff_aligned defaults _ _ _ _ _ _ hexec (fun _ => splitRun)
    (List.forall_mem_singleton.mpr rfl) (List.forall_mem_singleton.mpr hends)
    (List.forall_mem_singleton.mpr (by decide))
  refine ⟨submission, hsubmission, hright, fun haccepted => ?_⟩
  exact not_aligned_splitRun (hiff.mp haccepted _ (.head _)).2

end CodeWeaknesses.Submissions
