import CodeWeaknesses.Lib.OrdMap
import CodeWeaknesses.Submissions.Service

/-!
# `StandingsResolver`

Model of `graphql/resolvers/standings.resolver.ts` and of the types in
`graphql/types`. `contestStandings` takes what its two repository calls returned:
the contest's problems, if there is a contest, and the rows of the submission query.
`mySubmissions` and `submissionDetail` are one repository call each, on the tables.

Results:
* `best_spec`: in ascending rows, the reducer keeps the first row of maximal score.
* `mem_byUser`: the groups are the users with a loaded row, each with its rows in order.
* `mem_contestStandings`: an entry counts the problems whose best row is accepted.
-/

namespace CodeWeaknesses.Graphql

open Lib Submissions

/-! ## Types -/

/-- `BestSubmissionType` (`leaderboard.type.ts`). -/
structure BestSubmissionType where
  id : Id
  status : SubmissionStatus
  score : ℤ
  language : SubmissionLanguage
  submittedAt : Option Date
  executionTime : Option ℤ

/-- `ProblemBreakdownType` (`leaderboard.type.ts`). -/
structure ProblemBreakdownType where
  problemId : Id
  problemTitle : String
  bestScore : ℤ
  attempts : ℕ
  bestSubmission : Option BestSubmissionType

/-- `LeaderboardEntryType` (`leaderboard.type.ts`). -/
structure LeaderboardEntryType where
  rank : ℕ
  userId : Id
  userName : String
  totalScore : ℤ
  problemsSolved : ℕ
  lastAcceptedAt : Option Date
  problemBreakdowns : List ProblemBreakdownType

/-- `TestResultType` (`test-result.type.ts`). -/
structure TestResultType where
  id : Id
  testCaseId : Id
  passed : Bool
  isHidden : Bool
  output : Option String
  expectedOutput : Option String
  error : Option String
  executionTime : Option ℤ
  memoryUsed : Option ℕ
  deriving DecidableEq

/-- `SubmissionType` (`submission.type.ts`). -/
structure SubmissionType where
  id : Id
  language : SubmissionLanguage
  status : SubmissionStatus
  score : ℤ
  code : String
  executionTime : Option ℤ
  memoryUsed : Option ℕ
  submittedAt : Option Date
  completedAt : Option Date
  testResults : Option (List TestResultType)
  deriving DecidableEq

/-! ## `contestStandings` -/

/-- The grouping loop (lines 61–68): the rows of each user whose relation is loaded. -/
def addByUser (byUser : OrdMap Id (User × List Submission)) (sub : Submission) :
    OrdMap Id (User × List Submission) :=
  match sub.user with
  | none => byUser
  | some user =>
    let byUser := if byUser.has sub.userId then byUser else byUser.set sub.userId (user, [])
    let (u, subs) := (byUser.get? sub.userId).getD (user, [])
    byUser.set sub.userId (u, subs ++ [sub])

/-- `b.submittedAt < a.submittedAt`; a null is compared as 0. -/
def submittedBefore (b a : Submission) : Bool := decide (b.submittedAt.getD 0 < a.submittedAt.getD 0)

/-- The reducer of lines 93–97. -/
def pickBest (a b : Submission) : Submission :=
  if b.score > a.score then b
  else if b.score = a.score ∧ submittedBefore b a then b
  else a

/-- `problemSubs.reduce(…)`. -/
def best : List Submission → Option Submission
  | [] => none
  | s :: ss => some (ss.foldl pickBest s)

/-- The local variables of the entry loop (lines 73–76). -/
structure EntryTotals where
  totalScore : ℤ
  problemsSolved : ℕ
  lastAcceptedAt : Option Date
  problemBreakdowns : List ProblemBreakdownType

/-- Lines 103–106. -/
def laterOf (lastAcceptedAt acceptedAt : Option Date) : Option Date :=
  match acceptedAt, lastAcceptedAt with
  | some t, some last => if t > last then some t else some last
  | some t, none => some t
  | none, last => last

/-- The body of the problem loop (lines 78–125). -/
def addProblem (subs : List Submission) (t : EntryTotals) (problem : Problem) : EntryTotals :=
  let problemSubs := subs.filter fun s => s.problemId = problem.id
  match best problemSubs with
  | none =>
    { t with
      problemBreakdowns := t.problemBreakdowns ++
        [{ problemId := problem.id, problemTitle := problem.title, bestScore := 0, attempts := 0,
           bestSubmission := none }] }
  | some best =>
    { totalScore := t.totalScore + best.score
      problemsSolved := if best.status = .accepted then t.problemsSolved + 1 else t.problemsSolved
      lastAcceptedAt :=
        if best.status = .accepted then laterOf t.lastAcceptedAt (best.completedAt.or best.submittedAt)
        else t.lastAcceptedAt
      problemBreakdowns := t.problemBreakdowns ++
        [{ problemId := problem.id, problemTitle := problem.title, bestScore := best.score,
           attempts := problemSubs.length,
           bestSubmission := some
             { id := best.id, status := best.status, score := best.score, language := best.language,
               submittedAt := best.submittedAt, executionTime := best.executionTime } }] }

/-- The entry pushed for one user (lines 72–136). -/
def buildEntry (problems : List Problem) (group : Id × (User × List Submission)) : LeaderboardEntryType :=
  let (userId, user, subs) := group
  let t := problems.foldl (addProblem subs) ⟨0, 0, none, []⟩
  { rank := 0, userId := userId, userName := user.name, totalScore := t.totalScore,
    problemsSolved := t.problemsSolved, lastAcceptedAt := t.lastAcceptedAt,
    problemBreakdowns := t.problemBreakdowns }

/-- The comparator (lines 139–146). A missing date is `Infinity`; `Infinity - Infinity`
    is `NaN`, which `sort` takes for 0. -/
def compareEntries (a b : LeaderboardEntryType) : ℤ :=
  if b.problemsSolved ≠ a.problemsSolved then (b.problemsSolved : ℤ) - a.problemsSolved
  else if b.totalScore ≠ a.totalScore then b.totalScore - a.totalScore
  else
    match a.lastAcceptedAt, b.lastAcceptedAt with
    | some aT, some bT => aT - bT
    | some _, none => -1
    | none, some _ => 1
    | none, none => 0

/-- `entries.forEach((e, i) => { e.rank = i + 1; })`. -/
def assignRanks (entries : List LeaderboardEntryType) : List LeaderboardEntryType :=
  entries.mapIdx fun i e => { e with rank := i + 1 }

/-- `contestStandings` (lines 42–153). -/
def contestStandings (problems : Option (List Problem)) (submissions : List Submission) :
    Except Err (List LeaderboardEntryType) :=
  match problems with
  | none => .error (.notFound "Contest not found")
  | some problems =>
    let byUser := submissions.foldl addByUser .empty
    .ok (assignRanks (sortBy compareEntries (byUser.entries.map (buildEntry problems))))

/-! ## `mySubmissions` and `submissionDetail` -/

/-- `toTestResultType` (lines 227–239). -/
def toTestResultType (tr : TestResult) (showHidden : Bool) : TestResultType :=
  { id := tr.id
    testCaseId := tr.testCaseId
    passed := tr.passed
    isHidden := tr.isHidden
    output := if tr.isHidden && !showHidden then none else tr.output
    expectedOutput := if tr.isHidden && !showHidden then none else tr.expectedOutput
    error := tr.error
    executionTime := tr.executionTime
    memoryUsed := tr.memoryUsed }

/-- `toSubmissionType` (lines 200–225). -/
def toSubmissionType (sub : Submission) (showHidden includeTestResults : Bool) : SubmissionType :=
  { id := sub.id
    language := sub.language
    status := sub.status
    score := sub.score
    code := sub.code
    executionTime := sub.executionTime
    memoryUsed := sub.memoryUsed
    submittedAt := sub.submittedAt
    completedAt := sub.completedAt
    testResults :=
      if includeTestResults then
        sub.testResults.map fun results => results.map fun tr => toTestResultType tr showHidden
      else none }

/-- `mySubmissions` (lines 161–171). -/
def mySubmissions (w : World) (contestId : Id) (caller : JwtUser) : List SubmissionType :=
  let rows := w.submissions.rows.filter fun s => s.contestId = contestId ∧ s.userId = caller.userId
  (orderBySubmittedAtDesc w rows).map fun s => toSubmissionType s false false

/-- `submissionDetail` (lines 180–196). -/
def submissionDetail (w : World) (id : Id) (caller : JwtUser) : Except Err SubmissionType :=
  match w.submissions.find? id with
  | none => .error (.notFound "Submission not found")
  | some submission =>
    let submission := w.withTestResults submission
    let isAdmin := caller.role = .admin
    if ¬isAdmin ∧ submission.userId ≠ caller.userId then
      .error (.forbidden "You can only view your own submissions")
    else .ok (toSubmissionType submission isAdmin true)

/-! ## The best submission -/

/-- The rows ascend in `submittedAt`, a null counting as 0. -/
def Ascending (subs : List Submission) : Prop :=
  subs.Pairwise fun a b => a.submittedAt.getD 0 ≤ b.submittedAt.getD 0

/-- The reducer keeps the first row of maximal score. -/
theorem foldl_pickBest (subs : List Submission) : ∀ a, Ascending (a :: subs) →
    ∃ pre post, a :: subs = pre ++ subs.foldl pickBest a :: post ∧
      (∀ s ∈ pre, s.score < (subs.foldl pickBest a).score) ∧
      ∀ s ∈ post, s.score ≤ (subs.foldl pickBest a).score := by
  induction subs with
  | nil => exact fun a _ => ⟨[], [], by simp⟩
  | cons b subs ih =>
    intro a hasc
    obtain ⟨hfirst, hrest⟩ := List.pairwise_cons.mp hasc
    have hnotBefore : submittedBefore b a = false := by
      have hab := hfirst b List.mem_cons_self
      simpa [submittedBefore] using hab
    rw [List.foldl_cons]
    by_cases hscore : b.score > a.score
    · rw [show pickBest a b = b by rw [pickBest, if_pos hscore]]
      obtain ⟨pre, post, heq, hpre, hpost⟩ := ih b hrest
      refine ⟨a :: pre, post, by rw [heq, List.cons_append], ?_, hpost⟩
      -- `b` beats `a` and is not above the best row
      have hb : b.score ≤ (subs.foldl pickBest b).score := by
        cases pre with
        | nil => exact le_of_eq (congrArg Submission.score (List.cons.inj heq).1)
        | cons b' pre =>
          obtain ⟨rfl, _⟩ := List.cons.inj heq
          exact le_of_lt (hpre b List.mem_cons_self)
      intro s hs
      rcases List.mem_cons.mp hs with rfl | hs
      · omega
      · exact hpre s hs
    · rw [show pickBest a b = a by rw [pickBest, if_neg hscore, hnotBefore]; simp]
      have hasc' : Ascending (a :: subs) :=
        List.pairwise_cons.mpr ⟨fun s hs => hfirst s (List.mem_cons_of_mem _ hs),
          (List.pairwise_cons.mp hrest).2⟩
      obtain ⟨pre, post, heq, hpre, hpost⟩ := ih a hasc'
      cases pre with
      | nil =>
        obtain ⟨ha, hsubs⟩ := List.cons.inj heq
        rw [← ha]
        refine ⟨[], b :: subs, rfl, by simp, ?_⟩
        intro s hs
        rcases List.mem_cons.mp hs with rfl | hs
        · omega
        · rw [hsubs] at hs
          exact ha ▸ hpost s hs
      | cons a' pre =>
        obtain ⟨rfl, hsubs⟩ := List.cons.inj heq
        refine ⟨a :: b :: pre, post, congrArg (fun l => a :: b :: l) hsubs, ?_, hpost⟩
        have ha := hpre a List.mem_cons_self
        intro s hs
        rcases List.mem_cons.mp hs with rfl | hs
        · exact ha
        · rcases List.mem_cons.mp hs with rfl | hs
          · omega
          · exact hpre s (List.mem_cons_of_mem _ hs)

/-- The best row of ascending rows is the first of maximal score. -/
theorem best_spec {subs : List Submission} (hasc : Ascending subs) {b : Submission}
    (hb : best subs = some b) :
    ∃ pre post, subs = pre ++ b :: post ∧ (∀ s ∈ pre, s.score < b.score) ∧
      ∀ s ∈ post, s.score ≤ b.score := by
  cases subs with
  | nil => cases hb
  | cons a subs =>
    cases hb
    exact foldl_pickBest subs a hasc

theorem best_eq_none_iff {subs : List Submission} : best subs = none ↔ subs = [] := by
  cases subs <;> simp [best]

/-! ## The grouping loop -/

/-- The groups of `contestStandings`. -/
def byUser (submissions : List Submission) : OrdMap Id (User × List Submission) :=
  submissions.foldl addByUser .empty

/-- A row of a loaded user is added to the user's group. -/
theorem addByUser_eq (m : OrdMap Id (User × List Submission)) {sub : Submission} {user : User}
    (hu : sub.user = some user) :
    addByUser m sub = m.set sub.userId
      (((m.get? sub.userId).getD (user, [])).1, ((m.get? sub.userId).getD (user, [])).2 ++ [sub]) := by
  unfold addByUser
  rw [hu]
  cases hget : m.get? sub.userId with
  | none => simp [OrdMap.has_eq_isSome, hget, OrdMap.set_set]
  | some g => simp [OrdMap.has_eq_isSome, hget]

/-- The rows of user `u` whose user is loaded, in row order. -/
def loadedRows (rows : List Submission) (u : Id) : List Submission :=
  (rows.filter fun s => s.user.isSome).filter fun s => s.userId = u

/-- The group of `u` after the loop from `m`. -/
theorem get?_foldl_addByUser (rows : List Submission) : ∀ (m : OrdMap Id (User × List Submission)) (u : Id),
    ((rows.foldl addByUser m).get? u).map Prod.snd =
      if loadedRows rows u = [] then (m.get? u).map Prod.snd
      else some (((m.get? u).map Prod.snd).getD [] ++ loadedRows rows u) := by
  induction rows with
  | nil => exact fun m u => rfl
  | cons s rows ih =>
    intro m u
    rw [List.foldl_cons, ih]
    cases hu : s.user with
    | none =>
      have hskip : addByUser m s = m := by rw [addByUser, hu]
      have hrows : loadedRows (s :: rows) u = loadedRows rows u := by simp [loadedRows, hu]
      rw [hskip, hrows]
    | some user =>
      rw [addByUser_eq m hu, OrdMap.get?_set]
      by_cases h : u = s.userId
      · have hrows : loadedRows (s :: rows) u = s :: loadedRows rows u := by simp [loadedRows, hu, h]
        rw [hrows, if_pos h, if_neg (List.cons_ne_nil _ _)]
        subst h
        cases hget : m.get? s.userId <;> split_ifs with hnil <;> simp [hnil]
      · have hrows : loadedRows (s :: rows) u = loadedRows rows u := by
          simp [loadedRows, hu, Ne.symm h]
        rw [hrows, if_neg h]

/-- What `for (const [userId, { user, subs }] of byUser)` iterates over. -/
theorem mem_byUser {rows : List Submission} {g : Id × (User × List Submission)}
    (hg : g ∈ (byUser rows).entries) : g.2.2 = loadedRows rows g.1 ∧ loadedRows rows g.1 ≠ [] := by
  have hget := get?_foldl_addByUser rows .empty g.1
  have hstored : (byUser rows).get? g.1 = some g.2 := (OrdMap.mem_entries_iff _).mp hg
  rw [byUser] at hstored
  rw [hstored, OrdMap.get?_empty] at hget
  split_ifs at hget with hnil
  · cases hget
  · exact ⟨by simpa using hget, hnil⟩

theorem mem_keys_byUser {rows : List Submission} {u : Id} :
    u ∈ (byUser rows).keys ↔ loadedRows rows u ≠ [] := by
  have hget := get?_foldl_addByUser rows .empty u
  rw [OrdMap.mem_keys_iff]
  constructor
  · rintro ⟨v, hv⟩ hnil
    rw [byUser] at hv
    rw [hv, if_pos hnil, OrdMap.get?_empty] at hget
    cases hget
  · intro hne
    rw [if_neg hne] at hget
    obtain ⟨v, hv, _⟩ := Option.map_eq_some_iff.mp hget
    exact ⟨v, hv⟩

/-! ## One entry -/

/-- Whether the best row is accepted. -/
def bestAccepted (subs : List Submission) : Bool := (best subs).any fun b => b.status = .accepted

/-- The problem loop counts the problems whose best row is accepted. -/
theorem foldl_addProblem_solved (subs : List Submission) (problems : List Problem) : ∀ t : EntryTotals,
    (problems.foldl (addProblem subs) t).problemsSolved =
      t.problemsSolved + problems.countP fun p => bestAccepted (subs.filter fun s => s.problemId = p.id) := by
  induction problems with
  | nil => exact fun t => rfl
  | cons p problems ih =>
    intro t
    rw [List.foldl_cons, ih, List.countP_cons]
    cases hbest : best (subs.filter fun s => s.problemId = p.id) with
    | none => simp [addProblem, bestAccepted, hbest]
    | some b =>
      by_cases hb : b.status = .accepted
      · simp [addProblem, bestAccepted, hbest, hb]
        omega
      · simp [addProblem, bestAccepted, hbest, hb]

/-- The entries of `contestStandings` are those of the groups. -/
theorem mem_contestStandings {problems : List Problem} {rows : List Submission}
    {entries : List LeaderboardEntryType} (h : contestStandings (some problems) rows = .ok entries)
    {u : Id} {n : ℕ} :
    (∃ e ∈ entries, e.userId = u ∧ e.problemsSolved = n) ↔
      loadedRows rows u ≠ [] ∧
        n = problems.countP fun p => bestAccepted ((loadedRows rows u).filter fun s => s.problemId = p.id) := by
  have hentries : assignRanks (sortBy compareEntries ((byUser rows).entries.map (buildEntry problems))) =
      entries := by
    simpa [contestStandings, byUser] using h
  have hranks : ∀ es : List LeaderboardEntryType, (∃ e ∈ assignRanks es, e.userId = u ∧ e.problemsSolved = n) ↔
      ∃ e ∈ es, e.userId = u ∧ e.problemsSolved = n := by
    intro es
    simp only [assignRanks, List.mem_mapIdx]
    constructor
    · rintro ⟨_, ⟨i, hi, rfl⟩, hu, hn⟩
      exact ⟨es[i], List.getElem_mem hi, hu, hn⟩
    · rintro ⟨e, he, hu, hn⟩
      obtain ⟨i, hi, rfl⟩ := List.mem_iff_getElem.mp he
      exact ⟨_, ⟨i, hi, rfl⟩, hu, hn⟩
  rw [← hentries, hranks]
  simp only [mem_sortBy, List.mem_map]
  constructor
  · rintro ⟨_, ⟨g, hg, rfl⟩, rfl, rfl⟩
    obtain ⟨hsubs, hne⟩ := mem_byUser hg
    refine ⟨hne, ?_⟩
    show (problems.foldl (addProblem g.2.2) ⟨0, 0, none, []⟩).problemsSolved = _
    rw [foldl_addProblem_solved, hsubs]
    simp [buildEntry]
  · rintro ⟨hne, rfl⟩
    obtain ⟨v, hv⟩ := (OrdMap.mem_keys_iff _).mp (mem_keys_byUser.mpr hne)
    have hg : (u, v) ∈ (byUser rows).entries := (OrdMap.mem_entries_iff _).mpr hv
    refine ⟨_, ⟨(u, v), hg, rfl⟩, rfl, ?_⟩
    show (problems.foldl (addProblem v.2) ⟨0, 0, none, []⟩).problemsSolved = _
    rw [foldl_addProblem_solved, (mem_byUser hg).1]
    simp

end CodeWeaknesses.Graphql
