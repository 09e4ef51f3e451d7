import CodeWeaknesses.Common.Basic
import CodeWeaknesses.Lib.OrdMap
import CodeWeaknesses.Lib.Ranking

/-!
# `LeaderboardService`

Model of `leaderboard/leaderboard.service.ts` and of the DTOs in
`leaderboard/dto/leaderboard.dto.ts`. The repository calls of
`computeStandings` are arguments: the contest that `findOne` returned and the
rows that the query builder returned (`StandingsRows` says which lists those
can be). `localeCompare` is `String.prototype.localeCompare` of the runtime's
locale.
-/

namespace CodeWeaknesses.Leaderboard

open Lib

/-! ## DTOs -/

/-- `ProblemStanding` (`leaderboard.dto.ts:2-22`). -/
structure ProblemStanding where
  problemId : Id
  solved : Bool
  attempts : ℕ
  acceptedAt : Option Date
  timeMinutes : Option ℤ
  penaltyMinutes : Option ℤ

/-- `LeaderboardEntry` (`leaderboard.dto.ts:25-37`). -/
structure LeaderboardEntry where
  rank : ℕ
  userId : Id
  userName : String
  solved : ℕ
  totalPenalty : ℤ
  problems : OrdMap Id ProblemStanding

/-- `LeaderboardPayload` (`leaderboard.dto.ts:40-44`). -/
structure LeaderboardPayload where
  contestId : Id
  generatedAt : Date
  entries : List LeaderboardEntry

/-! ## The query -/

/-- The rows the query of lines 42–56 may return on the table `log`: those of
    the contest, ascending in `submittedAt`. Rows with equal `submittedAt` come
    in any order, and where a database puts a null is left open. -/
structure StandingsRows (log : List Submission) (contestId : Id) (rows : List Submission) : Prop where
  perm : rows.Perm (log.filter fun s => s.contestId = contestId)
  asc : rows.Pairwise fun a b =>
    ∀ s t, a.submittedAt = some s → b.submittedAt = some t → s ≤ t

/-! ## Grouping -/

/-- `type SubmissionGroup = Map<string, Map<string, Submission[]>>` (line 61). -/
abbrev SubmissionGroup := OrdMap Id (OrdMap Id (List Submission))

/-- The body of the grouping loop (lines 64–73). -/
def addSubmission (byUser : SubmissionGroup) (sub : Submission) : SubmissionGroup :=
  let byUser := if byUser.has sub.userId then byUser else byUser.set sub.userId .empty
  let byProblem := (byUser.get? sub.userId).getD .empty
  let byProblem := if byProblem.has sub.problemId then byProblem else byProblem.set sub.problemId []
  let subs := (byProblem.get? sub.problemId).getD []
  byUser.set sub.userId (byProblem.set sub.problemId (subs ++ [sub]))

/-- The grouping loop. -/
def groupSubmissions (submissions : List Submission) : SubmissionGroup :=
  submissions.foldl addSubmission .empty

/-! ## Building entries -/

/-- `isPenalisable` (lines 172–180). -/
def isPenalisable (status : SubmissionStatus) : Bool :=
  [SubmissionStatus.wrong, .tle, .mle, .runtimeError, .compilationError].contains status

/-- The counting loop (lines 92–101) from `wrongsBefore` on. It breaks at the
    first ACCEPTED submission, so `!acceptedSub` always holds inside. -/
def countAttempts : List Submission → ℕ → ℕ × Option Submission
  | [], wrongsBefore => (wrongsBefore, none)
  | sub :: subs, wrongsBefore =>
    if sub.status = .accepted then (wrongsBefore, some sub)
    else if isPenalisable sub.status then countAttempts subs (wrongsBefore + 1)
    else countAttempts subs wrongsBefore

/-- `new Date(submittedAt ?? completedAt!)` (line 104); `new Date(null)` is the epoch. -/
def acceptedAt (sub : Submission) : Date := (sub.submittedAt.or sub.completedAt).getD 0

/-- The local variables of the entry loop (lines 83–85). -/
structure EntryTotals where
  totalSolved : ℕ
  totalPenalty : ℤ
  problemStandings : OrdMap Id ProblemStanding

/-- The body of the problem loop (lines 87–127). -/
def addProblem (contestStart : Date) (t : EntryTotals) (entry : Id × List Submission) : EntryTotals :=
  let (problemId, subs) := entry
  match countAttempts subs 0 with
  | (wrongsBefore, some acceptedSub) =>
    let acceptedAt := acceptedAt acceptedSub
    let elapsedMs := acceptedAt - contestStart
    let timeMinutes := max 0 (mathFloorDiv elapsedMs 60000)
    let penaltyMinutes := timeMinutes + 20 * wrongsBefore
    { totalSolved := t.totalSolved + 1
      totalPenalty := t.totalPenalty + penaltyMinutes
      problemStandings := t.problemStandings.set problemId
        { problemId := problemId, solved := true, attempts := wrongsBefore,
          acceptedAt := some acceptedAt, timeMinutes := some timeMinutes,
          penaltyMinutes := some penaltyMinutes } }
  | (wrongsBefore, none) =>
    { t with
      problemStandings := t.problemStandings.set problemId
        { problemId := problemId, solved := false, attempts := wrongsBefore,
          acceptedAt := none, timeMinutes := none, penaltyMinutes := none } }

/-- The entry pushed for one user (lines 78–137). -/
def buildEntry (contestStart : Date) (submissions : List Submission)
    (group : Id × OrdMap Id (List Submission)) : LeaderboardEntry :=
  let (userId, byProblem) := group
  let anySubmission := submissions.find? fun s => s.userId = userId
  let userName := ((anySubmission.bind fun s => s.user).map fun u => u.name).getD userId
  let t := byProblem.entries.foldl (addProblem contestStart)
    { totalSolved := 0, totalPenalty := 0, problemStandings := .empty }
  { rank := 0, userId := userId, userName := userName, solved := t.totalSolved,
    totalPenalty := t.totalPenalty, problems := t.problemStandings }

/-- The entries before sorting. -/
def buildEntries (contestStart : Date) (submissions : List Submission) : List LeaderboardEntry :=
  (groupSubmissions submissions).entries.map (buildEntry contestStart submissions)

/-! ## Sorting and ranks -/

/-- The comparator of lines 143–147. -/
def compareEntries (localeCompare : String → String → ℤ) (a b : LeaderboardEntry) : ℤ :=
  if b.solved ≠ a.solved then (b.solved : ℤ) - a.solved
  else if a.totalPenalty ≠ b.totalPenalty then a.totalPenalty - b.totalPenalty
  else localeCompare a.userName b.userName

/-- The rank loop (lines 151–160) from index `i ≥ 1` on; `prev` is `entries[i - 1]`. -/
def assignRanksFrom : ℕ → ℕ → LeaderboardEntry → List LeaderboardEntry → List LeaderboardEntry
  | _, _, _, [] => []
  | i, currentRank, prev, e :: es =>
    let currentRank :=
      if e.solved ≠ prev.solved ∨ e.totalPenalty ≠ prev.totalPenalty then i + 1 else currentRank
    { e with rank := currentRank } :: assignRanksFrom (i + 1) currentRank e es

/-- The rank loop. -/
def assignRanks : List LeaderboardEntry → List LeaderboardEntry
  | [] => []
  | e :: es => { e with rank := 1 } :: assignRanksFrom 1 1 e es

/-- `computeStandings(contestId)` (lines 32–169) on the results of its two
    repository calls. -/
def computeStandings (localeCompare : String → String → ℤ) (contestId : Id)
    (contest : Option Contest) (submissions : List Submission) (now : Date) :
    Except Err LeaderboardPayload :=
  match contest with
  | none => .error (.notFound ("Contest " ++ contestId ++ " not found"))
  | some contest =>
    let entries := buildEntries contest.startTime submissions
    .ok { contestId := contestId, generatedAt := now,
          entries := assignRanks (sortBy (compareEntries localeCompare) entries) }

/-! ## The returned entries -/

/-- The sort key that decides ranks: more solved first, then less penalty. -/
def standingKey (e : LeaderboardEntry) : ℕᵒᵈ ×ₗ ℤ := toLex (OrderDual.toDual e.solved, e.totalPenalty)

/-- `a` is ranked strictly before `b`. -/
def Better (a b : LeaderboardEntry) : Prop :=
  b.solved < a.solved ∨ a.solved = b.solved ∧ a.totalPenalty < b.totalPenalty

instance (a b : LeaderboardEntry) : Decidable (Better a b) := by unfold Better; infer_instance

theorem standingKey_lt_iff {a b : LeaderboardEntry} : standingKey a < standingKey b ↔ Better a b := by
  rw [standingKey, standingKey, Prod.Lex.toLex_lt_toLex]
  simp [Better]

theorem standingKey_eq_iff {a b : LeaderboardEntry} :
    standingKey a = standingKey b ↔ a.solved = b.solved ∧ a.totalPenalty = b.totalPenalty := by
  simp [standingKey]

/-- Whatever the locale, the comparator refines the ranking order. -/
theorem compareEntries_refines (localeCompare : String → String → ℤ) :
    RefinesKey (compareEntries localeCompare) standingKey := by
  constructor <;> intro a b h <;> rw [standingKey_lt_iff, Better] at h <;> unfold compareEntries <;>
    split_ifs <;> omega

theorem assignRanksFrom_eq (es : List LeaderboardEntry) : ∀ (i cur : ℕ) (prev : LeaderboardEntry),
    assignRanksFrom i cur prev es =
      List.zipWith (fun e r => { e with rank := r }) es
        (ranksFrom i cur (standingKey prev) (es.map standingKey)) := by
  induction es with
  | nil => intros; rfl
  | cons e es ih =>
    intro i cur prev
    have hcond : (if e.solved ≠ prev.solved ∨ e.totalPenalty ≠ prev.totalPenalty then i + 1 else cur) =
        if standingKey e = standingKey prev then cur else i + 1 := by
      simp only [standingKey_eq_iff]
      split_ifs <;> first | rfl | omega
    simp only [assignRanksFrom, ranksFrom, List.map_cons, List.zipWith_cons_cons, hcond, ih]

/-- The rank loop stores the competition ranks of the sort keys. -/
theorem assignRanks_eq (es : List LeaderboardEntry) :
    assignRanks es =
      List.zipWith (fun e r => { e with rank := r }) es (competitionRanks (es.map standingKey)) := by
  cases es with
  | nil => rfl
  | cons e es =>
    simp only [assignRanks, competitionRanks, List.map_cons, List.zipWith_cons_cons, assignRanksFrom_eq]

/-- The entry `e` with its rank among `es`: one plus the number of better entries. -/
def withRank (es : List LeaderboardEntry) (e : LeaderboardEntry) : LeaderboardEntry :=
  { e with rank := 1 + es.countP fun e' => Better e' e }

/-- `computeStandings` returns the built entries, sorted, each with one plus the
    number of better entries as its rank. -/
theorem computeStandings_eq (localeCompare : String → String → ℤ) (contestId : Id) (contest : Contest)
    (submissions : List Submission) (now : Date) :
    computeStandings localeCompare contestId (some contest) submissions now =
      .ok { contestId := contestId, generatedAt := now,
            entries := (sortBy (compareEntries localeCompare)
              (buildEntries contest.startTime submissions)).map
                (withRank (buildEntries contest.startTime submissions)) } := by
  unfold computeStandings
  simp only [Except.ok.injEq, LeaderboardPayload.mk.injEq, true_and]
  set es := buildEntries contest.startTime submissions
  have hperm := sortBy_perm (compareEntries localeCompare) es
  have hsorted := sortBy_pairwise_key (compareEntries_refines localeCompare) es
  rw [assignRanks_eq, competitionRanks_eq (List.pairwise_map.mpr hsorted), List.map_map,
    List.zipWith_map_right, List.zipWith_self]
  apply List.map_congr_left
  intro e _
  simp only [withRank, Function.comp_apply, List.countP_map, standingKey_lt_iff,
    Function.comp_def, ← hperm.countP_eq]

end CodeWeaknesses.Leaderboard
