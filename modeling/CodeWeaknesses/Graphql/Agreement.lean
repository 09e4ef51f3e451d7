import CodeWeaknesses.Graphql.Standings
import CodeWeaknesses.Leaderboard.Icpc
import CodeWeaknesses.Submissions.Written

/-!
# Two standings of one contest

`LeaderboardService.computeStandings` and `StandingsResolver.contestStandings` read the
same rows. The first counts a problem as solved when some row is accepted, the second
when the first row of maximal score is.

Results:
* `bestAccepted_iff`: the best row is accepted iff some row is, and no row before the
  first accepted one has a score that rounds up.
* `solved_eq_countP`: `solved` counts the contest's problems with an accepted row.
* `standings_agree_iff`: exactly when the two agree on who solved what.
-/

namespace CodeWeaknesses.Graphql

open Lib Submissions
open Leaderboard (StandingsRows LeaderboardEntry computeStandings returnedEntries rowsOn isAccepted)

/-- The same users are listed, with as many solved problems. -/
def Agree (entries : List LeaderboardEntry) (entries' : List LeaderboardEntryType) : Prop :=
  ∀ u n, (∃ e ∈ entries, e.userId = u ∧ e.solved = n) ↔ ∃ e ∈ entries', e.userId = u ∧ e.problemsSolved = n

/-- A row of the contest: stored by `create` or saved by a completed run, on one of the
    contest's problems, with its user. -/
structure Recorded (problems : List Problem) (written : Submission → Provenance) (s : Submission) : Prop where
  writtenBy : WrittenBy (written s) s
  user : s.user.isSome = true
  problem : s.problemId ∈ problems.map fun p => p.id

/-! ## The best row -/

/-- The rows before the first accepted one. -/
def beforeAccepted (subs : List Submission) : List Submission := subs.takeWhile fun s => s.status ≠ .accepted

/-- The best row is accepted iff there is an accepted row and no score before the first
    one rounds up. -/
theorem bestAccepted_iff {written : Submission → Provenance} {subs : List Submission}
    (hasc : Ascending subs) (hwritten : ∀ s ∈ subs, WrittenBy (written s) s) :
    bestAccepted subs = true ↔
      (∃ s ∈ subs, s.status = .accepted) ∧ ∀ s ∈ beforeAccepted subs, ¬ RoundsUp (written s) := by
  cases hbest : best subs with
  | none => simp [bestAccepted, best, best_eq_none_iff.mp hbest]
  | some b =>
    obtain ⟨pre, post, rfl, hpre, hpost⟩ := best_spec hasc hbest
    have hb := hwritten b (by simp)
    -- rows above the best one score less than 100, so they are not accepted and round nothing up
    have hlow : ∀ s ∈ pre, s.status ≠ .accepted ∧ ¬ RoundsUp (written s) := by
      intro s hs
      have hlt := hpre s hs
      have hmax := hb.score_le
      rw [← not_or, ← (hwritten s (by simp [hs])).score_eq_hundred_iff]
      omega
    have hbefore : beforeAccepted (pre ++ b :: post) = pre ++ beforeAccepted (b :: post) :=
      List.takeWhile_append_of_pos fun s hs => by simp [hlow s hs]
    simp only [bestAccepted, hbest, Option.any_some, decide_eq_true_eq, hbefore]
    constructor
    · intro hacc
      refine ⟨⟨b, by simp, hacc⟩, ?_⟩
      intro s hs
      rw [beforeAccepted, List.takeWhile_cons_of_neg (by simp [hacc]), List.append_nil] at hs
      exact (hlow s hs).2
    · rintro ⟨⟨a, ha, hacc⟩, hnone⟩
      have hscore : a.score = 100 := (hwritten a ha).score_eq_hundred_iff.mpr (.inl hacc)
      have hbscore : b.score = 100 := by
        have hmax := hb.score_le
        rcases List.mem_append.mp ha with ha | ha
        · exact absurd hacc (hlow a ha).1
        · rcases List.mem_cons.mp ha with rfl | ha
          · exact hscore
          · have hle := hpost a ha
            omega
      by_contra hnot
      have hround := (hb.score_eq_hundred_iff.mp hbscore).resolve_left hnot
      refine hnone b ?_ hround
      rw [beforeAccepted, List.takeWhile_cons_of_pos (by simp [hnot])]
      simp

/-! ## The rows of the two queries -/

section Rows

variable {problems : Table Problem Id Problem.id} {written : Submission → Provenance}
  {contestId : Id} {log rows rows' : List Submission}

theorem recorded_of_mem (hrows : StandingsRows log contestId rows)
    (hlog : ∀ s ∈ log, s.contestId = contestId → Recorded problems.rows written s) {s : Submission}
    (hs : s ∈ rows) : Recorded problems.rows written s := by
  have hmem := hrows.perm.mem_iff.mp hs
  rw [List.mem_filter, decide_eq_true_eq] at hmem
  exact hlog s hmem.1 hmem.2

/-- Every user is loaded, so the resolver's group holds all rows of the user. -/
theorem loadedRows_eq (hrows : StandingsRows log contestId rows)
    (hlog : ∀ s ∈ log, s.contestId = contestId → Recorded problems.rows written s) (u : Id) :
    loadedRows rows u = rows.filter fun s => s.userId = u := by
  rw [loadedRows, List.filter_eq_self.mpr fun s hs => (recorded_of_mem hrows hlog hs).user]

/-- Every row has a `submittedAt`, so the query's order is ascending. -/
theorem ascending_rowsOn (hrows : StandingsRows log contestId rows)
    (hlog : ∀ s ∈ log, s.contestId = contestId → Recorded problems.rows written s) (u p : Id) :
    Ascending (rowsOn rows u p) := by
  have hasc : Ascending rows := by
    refine List.Pairwise.imp_of_mem ?_ hrows.asc
    intro a b ha hb hab
    obtain ⟨s, hs⟩ := Option.isSome_iff_exists.mp (recorded_of_mem hrows hlog ha).writtenBy.submittedAt
    obtain ⟨t, ht⟩ := Option.isSome_iff_exists.mp (recorded_of_mem hrows hlog hb).writtenBy.submittedAt
    rw [hs, ht]
    exact hab s t hs ht
  exact (hasc.filter _).filter _

/-- `solved` counts the problems with an accepted row. -/
theorem solved_eq_countP (hrows : StandingsRows log contestId rows)
    (hlog : ∀ s ∈ log, s.contestId = contestId → Recorded problems.rows written s) (T : Date) (u : Id) :
    (Leaderboard.score T rows u).1 = problems.rows.countP fun p => (rowsOn rows u p.id).any isAccepted := by
  have hsub : Leaderboard.problemsOf rows u ⊆ (problems.rows.map Problem.id).toFinset := by
    intro p hp
    obtain ⟨s, hs, _, rfl⟩ := Leaderboard.mem_problemsOf.mp hp
    exact List.mem_toFinset.mpr (recorded_of_mem hrows hlog hs).problem
  have hone : ∀ subs, Icpc.solvedCount isAccepted subs = if subs.any isAccepted then 1 else 0 := by
    intro subs
    simp only [Icpc.solvedCount, Icpc.firstAccepted, List.find?_isSome, List.any_eq_true]
  rw [Leaderboard.score_eq_sum T rows u hsub]
  simp only [hone]
  rw [List.sum_toFinset _ problems.nodup, List.map_map]
  induction problems.rows with
  | nil => rfl
  | cons p ps ih =>
    rw [List.map_cons, List.sum_cons, ih, List.countP_cons, Nat.add_comm]
    rfl

/-- The same rows of one user on one problem, in either query. -/
theorem any_rowsOn (hrows : StandingsRows log contestId rows) (hrows' : StandingsRows log contestId rows')
    (u p : Id) : (rowsOn rows u p).any isAccepted = (rowsOn rows' u p).any isAccepted :=
  (((hrows.perm.trans hrows'.perm.symm).filter _).filter _).any_eq

end Rows

/-! ## Agreement -/

/-- If `q` implies `p`, the two count the same elements iff `p` implies `q`. -/
theorem countP_eq_iff_of_imp {α : Type} {p q : α → Bool} {l : List α} (h : ∀ a ∈ l, q a = true → p a = true) :
    l.countP p = l.countP q ↔ ∀ a ∈ l, p a = true → q a = true := by
  constructor
  · induction l with
    | nil => simp
    | cons a l ih =>
      intro heq
      obtain ⟨ha, hl⟩ := List.forall_mem_cons.mp h
      have hle := List.countP_mono_left hl
      by_cases hq : q a = true
      · rw [List.countP_cons_of_pos (ha hq), List.countP_cons_of_pos hq] at heq
        exact List.forall_mem_cons.mpr ⟨fun _ => hq, ih hl (by omega)⟩
      · by_cases hp : p a = true
        · rw [List.countP_cons_of_pos hp, List.countP_cons_of_neg hq] at heq
          omega
        · rw [List.countP_cons_of_neg hp, List.countP_cons_of_neg hq] at heq
          exact List.forall_mem_cons.mpr ⟨fun hp' => absurd hp' hp, ih hl heq⟩
  · intro h'
    exact List.countP_congr fun a ha => ⟨h' a ha, h a ha⟩

/-- In `rows`, no score rounds up before an accepted row of the same user and problem. -/
def NoneRoundsUp (written : Submission → Provenance) (rows : List Submission) : Prop :=
  ∀ u p, (∃ s ∈ rowsOn rows u p, s.status = .accepted) →
    ∀ s ∈ beforeAccepted (rowsOn rows u p), ¬ RoundsUp (written s)

/-- The number of solved problems of each user with a row, in `computeStandings`. -/
theorem mem_returnedEntries_solved {localeCompare : String → String → ℤ} {T : Date} {rows : List Submission}
    {u : Id} {n : ℕ} :
    (∃ e ∈ returnedEntries localeCompare T rows, e.userId = u ∧ e.solved = n) ↔
      (∃ s ∈ rows, s.userId = u) ∧ n = (Leaderboard.score T rows u).1 := by
  constructor
  · rintro ⟨e, he, rfl, rfl⟩
    obtain ⟨g, hg, rfl⟩ := Leaderboard.mem_returnedEntries.mp he
    exact ⟨(Leaderboard.mem_groupSubmissions.mp hg).1, Leaderboard.buildEntry_solved T hg⟩
  · rintro ⟨hex, rfl⟩
    have hg : (u, OrdMap.groupBy (fun s : Submission => s.problemId) (rows.filter fun s => s.userId = u)) ∈
        (Leaderboard.groupSubmissions rows).entries := Leaderboard.mem_groupSubmissions.mpr ⟨hex, rfl⟩
    exact ⟨_, Leaderboard.mem_returnedEntries.mpr ⟨_, hg, rfl⟩, rfl, Leaderboard.buildEntry_solved T hg⟩

section Agreement

variable (contest : Contest) {problems : Table Problem Id Problem.id} {written : Submission → Provenance}
  {log rows rows' : List Submission}

variable {contest} in
/-- One user's counts agree iff no score rounds up before an accepted row of the user. -/
theorem countP_agree_iff (hrows' : StandingsRows log contest.id rows')
    (hlog : ∀ s ∈ log, s.contestId = contest.id → Recorded problems.rows written s) (u : Id) :
    (problems.rows.countP fun p => (rowsOn rows' u p.id).any isAccepted) =
        (problems.rows.countP fun p => bestAccepted (rowsOn rows' u p.id)) ↔
      ∀ p, (∃ s ∈ rowsOn rows' u p, s.status = .accepted) →
        ∀ s ∈ beforeAccepted (rowsOn rows' u p), ¬ RoundsUp (written s) := by
  have hany : ∀ p, (rowsOn rows' u p).any isAccepted = true ↔ ∃ s ∈ rowsOn rows' u p, s.status = .accepted := by
    intro p
    simp only [List.any_eq_true, isAccepted, decide_eq_true_eq]
  have hbest := fun p => bestAccepted_iff (ascending_rowsOn hrows' hlog u p) fun s hs =>
    (recorded_of_mem hrows' hlog (Leaderboard.mem_rowsOn.mp hs).1).writtenBy
  rw [countP_eq_iff_of_imp fun p _ h => (hany p.id).mpr ((hbest p.id).mp h).1]
  constructor
  · intro h p hacc
    -- a problem with a row is one of the contest's
    obtain ⟨s, hs, _⟩ := id hacc
    obtain ⟨hmem, _, rfl⟩ := Leaderboard.mem_rowsOn.mp hs
    obtain ⟨p, hp, hid⟩ := List.mem_map.mp (recorded_of_mem hrows' hlog hmem).problem
    rw [← hid] at hacc ⊢
    exact ((hbest p.id).mp (h p hp ((hany p.id).mpr hacc))).2
  · intro h p _ hacc
    have hacc := (hany p.id).mp hacc
    exact (hbest p.id).mpr ⟨hacc, h p.id hacc⟩

theorem agree_iff (localeCompare : String → String → ℤ) {entries : List LeaderboardEntryType}
    (hrows : StandingsRows log contest.id rows) (hrows' : StandingsRows log contest.id rows')
    (hlog : ∀ s ∈ log, s.contestId = contest.id → Recorded problems.rows written s)
    (hentries : contestStandings (some problems.rows) rows' = .ok entries) :
    Agree (returnedEntries localeCompare contest.startTime rows) entries ↔ NoneRoundsUp written rows' := by
  have hsolved : ∀ u, (Leaderboard.score contest.startTime rows u).1 =
      problems.rows.countP fun p => (rowsOn rows' u p.id).any isAccepted := by
    intro u
    rw [solved_eq_countP hrows hlog]
    exact List.countP_congr fun p _ => by rw [any_rowsOn hrows hrows']
  have husers : ∀ u, (∃ s ∈ rows, s.userId = u) ↔ loadedRows rows' u ≠ [] := by
    intro u
    rw [loadedRows_eq hrows' hlog, ne_eq, List.filter_eq_nil_iff]
    simp [(hrows.perm.trans hrows'.perm.symm).mem_iff]
  unfold Agree NoneRoundsUp
  refine forall_congr' fun u => ?_
  rw [← countP_agree_iff hrows' hlog u]
  have hgroup : ∀ p, ((loadedRows rows' u).filter fun s => s.problemId = p) = rowsOn rows' u p := by
    intro p
    rw [loadedRows_eq hrows' hlog, rowsOn]
  simp only [mem_returnedEntries_solved, mem_contestStandings hentries, hsolved, husers, hgroup]
  constructor
  · intro h
    by_cases hu : loadedRows rows' u = []
    · have hnil : ∀ p, rowsOn rows' u p = [] := fun p => by rw [← hgroup, hu, List.filter_nil]
      simp [hnil, bestAccepted, best]
    · exact ((h _).mp ⟨hu, rfl⟩).2
  · intro h n
    rw [h]

/-- **Exactly when the two standings agree.** `rows` and `rows'` are what the two queries
    return on one log, each row stored by `create` or saved by a completed run on one of
    the contest's problems. -/
theorem standings_agree_iff (localeCompare : String → String → ℤ)
    (hrows : StandingsRows log contest.id rows) (hrows' : StandingsRows log contest.id rows')
    (hlog : ∀ s ∈ log, s.contestId = contest.id → Recorded problems.rows written s) (now : Date) :
    ∃ payload entries, computeStandings localeCompare contest.id (some contest) rows now = .ok payload ∧
      contestStandings (some problems.rows) rows' = .ok entries ∧
      (Agree payload.entries entries ↔ NoneRoundsUp written rows') := by
  obtain ⟨entries, hentries⟩ : ∃ entries, contestStandings (some problems.rows) rows' = .ok entries := ⟨_, rfl⟩
  exact ⟨_, entries, Leaderboard.computeStandings_eq .., hentries,
    agree_iff contest localeCompare hrows hrows' hlog hentries⟩

end Agreement

/-! ## Two logs -/

/-- Bob's row on problem `p1`, submitted at `time` and judged `passed` of `total`. -/
def bobRow (id : Id) (time : Date) (passed total : ℕ) : Submission :=
  { id := id, code := "print(42)", language := .python, status := finalStatusOf passed total, userId := "u1",
    problemId := "p1", contestId := "c1", submittedAt := some time, startedAt := some time,
    completedAt := some (time + 1000), score := scoreOf passed total, executionTime := some 7,
    memoryUsed := none, user := some ⟨"u1", "Bob", "", .user⟩, problem := none, testResults := none }

/-- A contest that starts at the epoch. -/
def openContest : Contest := ⟨"c1", "Spring", 0, 7200000, none, none⟩

/-- The contest's problem. -/
def oneProblem : Table Problem Id Problem.id :=
  .upsert .empty ⟨"p1", "Sum", "Add them up.", 1000, some "c1"⟩

/-- Bob's rows when `passed` of `total` tests pass at first, and then all of them. -/
def retryLog (passed total : ℕ) : List Submission :=
  [bobRow "s1" 60000 passed total, bobRow "s2" 120000 total total]

/-- Who wrote the rows of `retryLog`. -/
def retryWritten (passed total : ℕ) (s : Submission) : Provenance :=
  if s.id = "s1" then .judged passed total else .judged total total

theorem retryLog_rows (passed total : ℕ) :
    StandingsRows (retryLog passed total) "c1" (retryLog passed total) := by
  refine ⟨.of_eq rfl, ?_⟩
  simp [retryLog, bobRow]

theorem bobRow_recorded {id : Id} {time : Date} {passed total : ℕ} {written : Submission → Provenance}
    (hwritten : written (bobRow id time passed total) = .judged passed total) (htotal : 0 < total)
    (hle : passed ≤ total) : Recorded oneProblem.rows written (bobRow id time passed total) := by
  refine ⟨?_, rfl, List.mem_singleton.mpr rfl⟩
  rw [hwritten]
  exact ⟨htotal, hle, rfl, rfl, rfl⟩

theorem retryLog_recorded {passed total : ℕ} (htotal : 0 < total) (hle : passed ≤ total) :
    ∀ s ∈ retryLog passed total, s.contestId = "c1" →
      Recorded oneProblem.rows (retryWritten passed total) s := by
  refine List.forall_mem_cons.mpr ⟨fun _ => ?_, List.forall_mem_singleton.mpr fun _ => ?_⟩
  · exact bobRow_recorded rfl htotal hle
  · exact bobRow_recorded rfl htotal le_rfl

/-- Bob fails one of two tests and then none: the standings agree. -/
theorem standings_agree_retry : ∃ payload entries,
    computeStandings (fun _ _ => 0) "c1" (some openContest) (retryLog 1 2) 200000 = .ok payload ∧
      contestStandings (some oneProblem.rows) (retryLog 1 2) = .ok entries ∧
      Agree payload.entries entries := by
  obtain ⟨payload, entries, hpayload, hentries, hiff⟩ :=
    standings_agree_iff openContest (fun _ _ => 0) (retryLog_rows 1 2) (retryLog_rows 1 2)
      (retryLog_recorded (by decide) (by decide)) 200000
  refine ⟨payload, entries, hpayload, hentries, hiff.mpr ?_⟩
  intro u p _ s hs
  have hmem := (Leaderboard.mem_rowsOn.mp (List.takeWhile_subset _ hs)).1
  rcases List.mem_pair.mp hmem with rfl | rfl
  · show ¬ (1 < 2 ∧ 199 * 2 ≤ 200 * 1)
    decide
  · show ¬ (2 < 2 ∧ 199 * 2 ≤ 200 * 2)
    decide

/-- Bob fails one of 200 tests and then none: `computeStandings` counts the problem as
    solved, `contestStandings` does not. -/
theorem standings_disagree :
    (∀ s ∈ retryLog 199 200, s.contestId = "c1" →
      Recorded oneProblem.rows (retryWritten 199 200) s) ∧
    StandingsRows (retryLog 199 200) "c1" (retryLog 199 200) ∧
    ∃ payload entries,
      computeStandings (fun _ _ => 0) "c1" (some openContest) (retryLog 199 200) 200000 = .ok payload ∧
      contestStandings (some oneProblem.rows) (retryLog 199 200) = .ok entries ∧
      ¬ Agree payload.entries entries := by
  have hlog := retryLog_recorded (show 0 < 200 by decide) (show 199 ≤ 200 by decide)
  have hrows := retryLog_rows 199 200
  refine ⟨hlog, hrows, _, _, Leaderboard.computeStandings_eq .., rfl, ?_⟩
  intro hagree
  have hnone := (agree_iff openContest (fun _ _ => 0) hrows hrows hlog rfl).mp hagree
  have hrow : rowsOn (retryLog 199 200) "u1" "p1" = retryLog 199 200 := rfl
  refine hnone "u1" "p1" ?_ (bobRow "s1" 60000 199 200) ?_ (by show 199 < 200 ∧ 199 * 200 ≤ 200 * 199; decide)
  · exact ⟨bobRow "s2" 120000 200 200, by rw [hrow]; simp [retryLog], by decide⟩
  · have hstatus : finalStatusOf 199 200 = .wrong := by decide
    rw [hrow, beforeAccepted, retryLog, List.takeWhile_cons_of_pos (by simp [bobRow, hstatus])]
    exact List.mem_cons_self

end CodeWeaknesses.Graphql
