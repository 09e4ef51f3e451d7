import CodeWeaknesses.Leaderboard.Moves
import CodeWeaknesses.Submissions.Outcomes

/-!
# The final standings

What a contest ends with is decided by its submissions and by what their programs do. Neither the
order in which the workers take their steps, nor errors and retries, nor the times of the judging,
nor the order in which the database returns rows of the same time has a part in it.

Results:
* `rowsOn_counted`: the rows of a user on a problem, whatever order the database returns ties in.
* `sameEntries_of_counted`: the standings depend on what `counted` keeps of the rows only.
* `final_standings`: **once every job has returned, the standings are those of the submissions with
  the statuses that their programs earn.**
-/

namespace CodeWeaknesses.Leaderboard

open Lib

/-! ## What counts of a row -/

/-- What the scoring reads of a row. -/
structure Counted where
  userId : Id
  problemId : Id
  status : SubmissionStatus
  acceptedAt : Date

def counted (s : Submission) : Counted := ⟨s.userId, s.problemId, s.status, acceptedAt s⟩

/-- The two rows are not of one user on one problem at the same time. -/
def Apart (k k' : Counted) : Prop := k.userId = k'.userId → k.problemId = k'.problemId → k.acceptedAt ≠ k'.acceptedAt

theorem rowsOn_map_counted (rows : List Submission) (u p : Id) :
    (rowsOn rows u p).map counted =
      ((rows.map counted).filter fun k => k.userId = u).filter fun k => k.problemId = p := by
  rw [rowsOn, List.filter_map, List.filter_map]
  rfl

section Ties

variable {rows rows' : List Submission} (hperm : (rows.map counted).Perm (rows'.map counted))
  (hasc : rows.Pairwise fun a b => acceptedAt a ≤ acceptedAt b)
  (hasc' : rows'.Pairwise fun a b => acceptedAt a ≤ acceptedAt b)
  (hapart : (rows.map counted).Pairwise Apart)

include hperm hasc hasc' hapart

/-- Without ties of one user on one problem, the order of the rows of each problem is fixed. -/
theorem rowsOn_counted (u p : Id) : (rowsOn rows u p).map counted = (rowsOn rows' u p).map counted := by
  have hsorted : ∀ l : List Submission, (l.Pairwise fun a b => acceptedAt a ≤ acceptedAt b) →
      ((rowsOn l u p).map counted).Pairwise fun k k' => k.acceptedAt ≤ k'.acceptedAt := by
    intro l hl
    exact List.pairwise_map.mpr ((hl.filter _).filter _)
  have hsame : ((rowsOn rows u p).map counted).Perm ((rowsOn rows' u p).map counted) := by
    rw [rowsOn_map_counted, rowsOn_map_counted]
    exact (hperm.filter _).filter _
  refine List.Perm.eq_of_pairwise ?_ (hsorted rows hasc) (hsorted rows' hasc') hsame
  intro k k' hk hk' hle hle'
  -- two different rows of the user on the problem are apart
  have hmem : ∀ x, x ∈ (rowsOn rows u p).map counted →
      x ∈ rows.map counted ∧ x.userId = u ∧ x.problemId = p := by
    intro x hx
    rw [rowsOn_map_counted, List.mem_filter, List.mem_filter] at hx
    exact ⟨hx.1.1, of_decide_eq_true hx.1.2, of_decide_eq_true hx.2⟩
  obtain ⟨hin, hu, hp⟩ := hmem k hk
  obtain ⟨hin', hu', hp'⟩ := hmem k' (hsame.mem_iff.mpr hk')
  by_contra hne
  have : Std.Symm Apart := ⟨fun x y h hu hp ht => h hu.symm hp.symm ht.symm⟩
  have happly : Apart k k' := hapart.forall hin hin' hne
  exact happly (hu.trans hu'.symm) (hp.trans hp'.symm) (le_antisymm hle hle')

end Ties

/-- The standing of a problem depends on what counts of its rows only. -/
theorem standing_congr (T : Date) (p : Id) {subs subs' : List Submission}
    (h : subs.map counted = subs'.map counted) : standing T p subs = standing T p subs' := by
  let accepted (k : Counted) : Bool := decide (k.status = .accepted)
  let penalised (k : Counted) : Bool := isPenalisable k.status
  have hfirst : (Icpc.firstAccepted isAccepted subs).map counted =
      (Icpc.firstAccepted isAccepted subs').map counted := by
    have hmap := congrArg (Icpc.firstAccepted accepted) h
    rw [Icpc.firstAccepted_map, Icpc.firstAccepted_map] at hmap
    exact hmap
  have hattempts : Icpc.attemptsBefore isAccepted isPenalised subs =
      Icpc.attemptsBefore isAccepted isPenalised subs' := by
    have hmap := congrArg (Icpc.attemptsBefore accepted penalised) h
    rw [Icpc.attemptsBefore_map, Icpc.attemptsBefore_map] at hmap
    exact hmap
  unfold standing
  rw [hattempts]
  cases hs : Icpc.firstAccepted isAccepted subs with
  | none =>
    rw [hs] at hfirst
    rw [Option.map_eq_none_iff.mp hfirst.symm]
  | some s =>
    rw [hs] at hfirst
    obtain ⟨s', hs', hcounted⟩ := Option.map_eq_some_iff.mp hfirst.symm
    have htime : acceptedAt s' = acceptedAt s := congrArg Counted.acceptedAt hcounted
    simp only [hs', solveMinutes, htime]

/-! ## Standings of the same rows -/

/-- The entries show the same. -/
structure SameEntry (e e' : LeaderboardEntry) : Prop where
  rank_eq : e.rank = e'.rank
  userName_eq : e.userName = e'.userName
  solved_eq : e.solved = e'.solved
  totalPenalty_eq : e.totalPenalty = e'.totalPenalty
  problems_eq : ∀ p, e.problems.get? p = e'.problems.get? p

/-- The entries of the same users, each showing the same. -/
structure SameEntries (es es' : List LeaderboardEntry) : Prop where
  users : (es.map fun e => e.userId).Perm (es'.map fun e => e.userId)
  entries : ∀ e ∈ es, ∀ e' ∈ es', e.userId = e'.userId → SameEntry e e'

section Rows

variable {rows rows' : List Submission}

theorem mem_usersOf_counted {u : Id} : u ∈ usersOf rows ↔ ∃ k ∈ rows.map counted, k.userId = u := by
  rw [mem_usersOf]
  constructor
  · rintro ⟨s, hs, rfl⟩
    exact ⟨counted s, List.mem_map_of_mem hs, rfl⟩
  · rintro ⟨_, hk, rfl⟩
    obtain ⟨s, hs, rfl⟩ := List.mem_map.mp hk
    exact ⟨s, hs, rfl⟩

theorem mem_problemsOf_counted {u p : Id} :
    p ∈ problemsOf rows u ↔ ∃ k ∈ rows.map counted, k.userId = u ∧ k.problemId = p := by
  rw [mem_problemsOf]
  constructor
  · rintro ⟨s, hs, rfl, rfl⟩
    exact ⟨counted s, List.mem_map_of_mem hs, rfl, rfl⟩
  · rintro ⟨_, hk, rfl, rfl⟩
    obtain ⟨s, hs, rfl⟩ := List.mem_map.mp hk
    exact ⟨s, hs, rfl, rfl⟩

theorem score_congr_counted (T : Date) {u : Id} (hproblems : problemsOf rows u = problemsOf rows' u)
    (hrows : ∀ p, (rowsOn rows u p).map counted = (rowsOn rows' u p).map counted) :
    score T rows u = score T rows' u := by
  unfold score
  rw [hproblems]
  congr 1
  · refine Finset.sum_congr rfl fun p _ => ?_
    rw [solvedCount_standing T p, solvedCount_standing T p, standing_congr T p (hrows p)]
  · refine Finset.sum_congr rfl fun p _ => ?_
    rw [penalty_standing T p, penalty_standing T p, standing_congr T p (hrows p)]

/-- The name shown for a user, when every row has the user that the query joins. -/
theorem userName_buildEntry (T : Date) {users : Id → Option User} (husers : ∀ s ∈ rows, s.user = users s.userId)
    {g : Id × OrdMap Id (List Submission)} (hg : g ∈ (groupSubmissions rows).entries) :
    (buildEntry T rows g).userName = ((users g.1).map fun u => u.name).getD g.1 := by
  obtain ⟨s, hs, hu⟩ := (mem_groupSubmissions.mp hg).1
  have hsome : (rows.find? fun s => s.userId = g.1).isSome := by
    rw [List.find?_isSome]
    exact ⟨s, hs, decide_eq_true hu⟩
  obtain ⟨s', hs'⟩ := Option.isSome_iff_exists.mp hsome
  have hu' : s'.userId = g.1 := by simpa using List.find?_some hs'
  have hjoined : s'.user = users g.1 := hu' ▸ husers s' (List.mem_of_find?_eq_some hs')
  show (((rows.find? fun s => s.userId = g.1).bind fun s => s.user).map fun u => u.name).getD g.1 = _
  rw [hs']
  show (s'.user.map fun u => u.name).getD g.1 = _
  rw [hjoined]

/-- Rows that count the same, without ties of one user on one problem, have the same standings. -/
theorem sameEntries_of_counted (localeCompare : String → String → ℤ) (T : Date) {users : Id → Option User}
    (husers : ∀ s ∈ rows, s.user = users s.userId) (husers' : ∀ s ∈ rows', s.user = users s.userId)
    (hperm : (rows.map counted).Perm (rows'.map counted))
    (hasc : rows.Pairwise fun a b => acceptedAt a ≤ acceptedAt b)
    (hasc' : rows'.Pairwise fun a b => acceptedAt a ≤ acceptedAt b)
    (hapart : (rows.map counted).Pairwise Apart) :
    SameEntries (returnedEntries localeCompare T rows) (returnedEntries localeCompare T rows') := by
  have hrows := rowsOn_counted hperm hasc hasc' hapart
  have hproblems : ∀ u, problemsOf rows u = problemsOf rows' u := by
    intro u
    ext p
    rw [mem_problemsOf_counted, mem_problemsOf_counted]
    simp only [hperm.mem_iff]
  have hscore : ∀ u, score T rows u = score T rows' u :=
    fun u => score_congr_counted T (hproblems u) (hrows u)
  have husersOf : usersOf rows = usersOf rows' := by
    ext u
    rw [mem_usersOf_counted, mem_usersOf_counted]
    simp only [hperm.mem_iff]
  constructor
  · have hkeys : (groupSubmissions rows).keys.Perm (groupSubmissions rows').keys := by
      refine (List.perm_ext_iff_of_nodup (groupSubmissions rows).nodup (groupSubmissions rows').nodup).mpr ?_
      intro u
      exact List.mem_toFinset.symm.trans ((Finset.ext_iff.mp husersOf u).trans List.mem_toFinset)
    exact (map_userId_returnedEntries localeCompare T rows).trans
      (hkeys.trans (map_userId_returnedEntries localeCompare T rows').symm)
  · intro e he e' he' hsame
    have hrank : e.rank = e'.rank := by
      rw [rank_eq_rankAmong he, rank_eq_rankAmong he', husersOf, hsame]
      simp only [hscore]
    obtain ⟨g, hg, rfl⟩ := mem_returnedEntries.mp he
    obtain ⟨g', hg', rfl⟩ := mem_returnedEntries.mp he'
    replace hsame : g.1 = g'.1 := hsame
    refine ⟨hrank, ?_, ?_, ?_, ?_⟩
    · show (buildEntry T rows g).userName = (buildEntry T rows' g').userName
      rw [userName_buildEntry T husers hg, userName_buildEntry T husers' hg', hsame]
    · show (buildEntry T rows g).solved = (buildEntry T rows' g').solved
      rw [buildEntry_solved T hg, buildEntry_solved T hg', ← hsame]
      exact congrArg Prod.fst (hscore g.1)
    · show (buildEntry T rows g).totalPenalty = (buildEntry T rows' g').totalPenalty
      rw [buildEntry_totalPenalty T hg, buildEntry_totalPenalty T hg', ← hsame]
      exact congrArg Prod.snd (hscore g.1)
    · intro p
      show (buildEntry T rows g).problems.get? p = (buildEntry T rows' g').problems.get? p
      have hempty : rowsOn rows g.1 p = [] ↔ rowsOn rows' g.1 p = [] := by
        rw [← List.map_eq_nil_iff (f := counted), hrows, List.map_eq_nil_iff]
      rw [get?_buildEntry_problems T hg, get?_buildEntry_problems T hg', ← hsame,
        standing_congr T p (hrows g.1 p)]
      simp only [hempty]

end Rows

/-! ## When all jobs have returned -/

section Final

variable {ι : Type} {jobs : ι → Submissions.JobData} {w : Submissions.World} {runs : Submissions.Runs}

/-- The submissions with the users that the query joins. -/
def logOf (w : Submissions.World) : List Submission := w.submissions.rows.map w.withUser

/-- The submissions with the statuses that their programs earn. -/
def settledLog (runs : Submissions.Runs) (w : Submissions.World) : List Submission :=
  (w.submissions.rows.map (Submissions.settled runs w)).map w.withUser

/-- Every submission has its `submittedAt`, and no user sent two to one problem of the contest at
    the same time. -/
structure Timed (w : Submissions.World) (contestId : Id) : Prop where
  dated : ∀ s ∈ w.submissions.rows, ∃ t, s.submittedAt = some t
  apart : (w.submissions.rows.filter fun s => s.contestId = contestId).Pairwise fun a b =>
    a.userId = b.userId → a.problemId = b.problemId → a.submittedAt ≠ b.submittedAt

theorem acceptedAt_of_submittedAt {s : Submission} {t : Date} (h : s.submittedAt = some t) : acceptedAt s = t := by
  unfold acceptedAt
  rw [h]
  rfl

/-- What the query returns, where every row has its `submittedAt`. -/
theorem StandingsRows.acceptedAt_asc {log rows : List Submission} {contestId : Id}
    (h : StandingsRows log contestId rows) (hdated : ∀ s ∈ log, ∃ t, s.submittedAt = some t) :
    rows.Pairwise fun a b => acceptedAt a ≤ acceptedAt b := by
  have hmem : ∀ s ∈ rows, s ∈ log := fun s hs => (List.mem_filter.mp (h.perm.mem_iff.mp hs)).1
  refine h.asc.imp_of_mem ?_
  intro a b ha hb hle
  obtain ⟨t, ht⟩ := hdated a (hmem a ha)
  obtain ⟨t', ht'⟩ := hdated b (hmem b hb)
  rw [acceptedAt_of_submittedAt ht, acceptedAt_of_submittedAt ht']
  exact hle t t' ht ht'

theorem Timed.settled {contestId : Id} (h : Timed w contestId) :
    ∀ s ∈ settledLog runs w, ∃ t, s.submittedAt = some t := by
  intro y hy
  obtain ⟨x, hx, rfl⟩ := List.mem_map.mp hy
  obtain ⟨s, hs, rfl⟩ := List.mem_map.mp hx
  obtain ⟨t, ht⟩ := h.dated s hs
  exact ⟨t, (Submissions.settled_sameTask s).submittedAt_eq.trans ht⟩

theorem Timed.counted_apart {contestId : Id} (h : Timed w contestId) :
    (((settledLog runs w).filter fun s => s.contestId = contestId).map counted).Pairwise Apart := by
  have hfilter : (settledLog runs w).filter (fun s => s.contestId = contestId) =
      ((w.submissions.rows.filter fun s => s.contestId = contestId).map (Submissions.settled runs w)).map
        w.withUser := by
    rw [settledLog, List.filter_map, List.filter_map]
    congr 2
    refine List.filter_congr fun s _ => ?_
    show decide ((Submissions.settled runs w s).contestId = contestId) = decide (s.contestId = contestId)
    rw [(Submissions.settled_sameTask s).contestId_eq]
  rw [hfilter, List.map_map, List.map_map, List.pairwise_map]
  refine h.apart.imp_of_mem ?_
  intro a b ha hb hab hu hp ht
  obtain ⟨t, hta⟩ := h.dated a (List.mem_filter.mp ha).1
  obtain ⟨t', htb⟩ := h.dated b (List.mem_filter.mp hb).1
  have htask : ∀ s, Submissions.SameTask s (Submissions.settled runs w s) := fun s => Submissions.settled_sameTask s
  refine hab ((htask a).userId_eq.symm.trans (hu.trans (htask b).userId_eq))
    ((htask a).problemId_eq.symm.trans (hp.trans (htask b).problemId_eq)) ?_
  change acceptedAt (Submissions.settled runs w a) = acceptedAt (Submissions.settled runs w b) at ht
  rw [acceptedAt_of_submittedAt ((htask a).submittedAt_eq.trans hta),
    acceptedAt_of_submittedAt ((htask b).submittedAt_eq.trans htb)] at ht
  rw [hta, htb, ht]

variable [DecidableEq ι]

/-- The log of the contest counts as the settled one. -/
theorem counted_logOf (hqueued : Submissions.Queued jobs w) {sched : List (ι × Submissions.Choice)}
    (hfresh : Submissions.FreshIds jobs w sched) (hruns : Submissions.AllByRuns runs jobs w sched)
    (hdone : ∀ i, ∃ res, (Submissions.together jobs w sched).tasks i = .ret res)
    (hdated : ∀ s ∈ w.submissions.rows, ∃ t, s.submittedAt = some t) (contestId : Id) :
    ((logOf (Submissions.together jobs w sched).state).filter fun s => s.contestId = contestId).map counted =
      ((settledLog runs w).filter fun s => s.contestId = contestId).map counted := by
  set v := (Submissions.together jobs w sched).state with hv
  let view (s : Submission) : Id × Counted := (s.contestId, counted s)
  have hview : ∀ log : List Submission, (log.filter fun s => s.contestId = contestId).map counted =
      ((log.map view).filter fun x => x.1 = contestId).map Prod.snd := by
    intro log
    rw [List.filter_map, List.map_map]
    rfl
  have hsettled : (w.submissions.rows.map (Submissions.settled runs w)).map Submission.id =
      w.submissions.rows.map Submission.id := by
    rw [List.map_map]
    exact List.map_congr_left fun s _ => Submissions.settled_id s
  have hids : v.submissions.rows.map Submission.id =
      (w.submissions.rows.map (Submissions.settled runs w)).map Submission.id :=
    (Submissions.together_sameFrame hqueued.stored sched).ids.trans hsettled.symm
  have hrows : v.submissions.rows.map view = (w.submissions.rows.map (Submissions.settled runs w)).map view := by
    refine (map_eq_map_iff_of_keys view hids (hsettled ▸ w.submissions.nodup)).mpr ?_
    intro s' hs' x hx hid
    obtain ⟨s, hs, rfl⟩ := List.mem_map.mp hx
    have hsettled' : Submissions.SameTask s (Submissions.settled runs w s) := Submissions.settled_sameTask s
    obtain ⟨htask, hstatus⟩ := Submissions.together_settled hqueued hfresh hruns hdone hs hs'
      (hid.trans (Submissions.settled_id s))
    obtain ⟨t, ht⟩ := hdated s hs
    have htime : acceptedAt s' = acceptedAt (Submissions.settled runs w s) := by
      rw [acceptedAt_of_submittedAt (htask.submittedAt_eq.trans ht),
        acceptedAt_of_submittedAt (hsettled'.submittedAt_eq.trans ht)]
    simp only [view, counted, htask.contestId_eq, htask.userId_eq, htask.problemId_eq, hstatus, htime,
      hsettled'.contestId_eq, hsettled'.userId_eq, hsettled'.problemId_eq]
  have hlog : (logOf v).map view = v.submissions.rows.map view := by
    rw [logOf, List.map_map]
    rfl
  have hsettledLog : (settledLog runs w).map view = (w.submissions.rows.map (Submissions.settled runs w)).map view := by
    rw [settledLog, List.map_map]
    rfl
  rw [hview, hview, hlog, hsettledLog, hrows]

/-- **Main**: whatever runs and fails in between, when every pending submission's job has returned
    the standings of a contest are those of its submissions with the statuses that their programs
    earn. -/
theorem final_standings (hqueued : Submissions.Queued jobs w) {sched : List (ι × Submissions.Choice)}
    (hfresh : Submissions.FreshIds jobs w sched) (hruns : Submissions.AllByRuns runs jobs w sched)
    (hdone : ∀ i, ∃ res, (Submissions.together jobs w sched).tasks i = .ret res)
    (localeCompare : String → String → ℤ) (contest : Contest) (htimed : Timed w contest.id)
    (now now' : Date) {rows ideal : List Submission}
    (hrows : StandingsRows (logOf (Submissions.together jobs w sched).state) contest.id rows)
    (hideal : StandingsRows (settledLog runs w) contest.id ideal) :
    ∃ payload payload', computeStandings localeCompare contest.id (some contest) rows now = .ok payload ∧
      computeStandings localeCompare contest.id (some contest) ideal now' = .ok payload' ∧
        SameEntries payload.entries payload'.entries := by
  set v := (Submissions.together jobs w sched).state with hv
  have hframe : Submissions.SameFrame w v := Submissions.together_sameFrame hqueued.stored sched
  have hcounted := counted_logOf hqueued hfresh hruns hdone htimed.dated contest.id
  have hperm : (rows.map counted).Perm (ideal.map counted) := by
    refine (hrows.perm.map counted).trans ?_
    rw [← hv] at hcounted
    rw [hcounted]
    exact (hideal.perm.map counted).symm
  have hapart : (rows.map counted).Pairwise Apart := by
    have hsymm : ∀ {x y : Counted}, Apart x y → Apart y x :=
      fun h hu hp ht => h hu.symm hp.symm ht.symm
    refine ((hrows.perm.map counted).pairwise_iff hsymm).mpr ?_
    rw [← hv] at hcounted
    rw [hcounted]
    exact htimed.counted_apart
  have hdated : ∀ s ∈ logOf v, ∃ t, s.submittedAt = some t := by
    intro s hs
    obtain ⟨s', hs', rfl⟩ := List.mem_map.mp hs
    have hmem : s'.id ∈ w.submissions.rows.map Submission.id := hframe.ids ▸ List.mem_map_of_mem hs'
    obtain ⟨s, hs, hid⟩ := List.mem_map.mp hmem
    obtain ⟨htask, _⟩ := Submissions.together_settled hqueued hfresh hruns hdone hs hs' hid.symm
    obtain ⟨t, ht⟩ := htimed.dated s hs
    exact ⟨t, htask.submittedAt_eq.trans ht⟩
  have husers : ∀ s ∈ rows, s.user = w.users.find? s.userId := by
    intro s hs
    obtain ⟨s', _, rfl⟩ := List.mem_map.mp (List.mem_filter.mp (hrows.perm.mem_iff.mp hs)).1
    show v.users.find? s'.userId = w.users.find? s'.userId
    rw [hframe.users]
  have husers' : ∀ s ∈ ideal, s.user = w.users.find? s.userId := by
    intro s hs
    obtain ⟨s', _, rfl⟩ := List.mem_map.mp (List.mem_filter.mp (hideal.perm.mem_iff.mp hs)).1
    rfl
  refine ⟨_, _, computeStandings_eq localeCompare contest.id contest rows now,
    computeStandings_eq localeCompare contest.id contest ideal now', ?_⟩
  exact sameEntries_of_counted localeCompare contest.startTime husers husers' hperm
    (hrows.acceptedAt_asc hdated) (hideal.acceptedAt_asc htimed.settled) hapart

end Final

/-! ## Two submissions -/

/-- The programs of the two submissions print a number each. -/
def printing : Submissions.Runs := fun _ code _ => (true, if code = "print(42)" then "42" else "41")

theorem jobsOfBoth_queued : Submissions.Queued Submissions.jobsOfBoth Submissions.pendingBoth where
  distinct := Submissions.jobsOfBoth_distinct
  sound i := by
    cases i with
    | false => exact ⟨_, .head _, rfl, rfl⟩
    | true => exact ⟨_, .tail _ (.head _), rfl, rfl⟩
  complete s hs _ := by
    cases hs with
    | head => exact ⟨false, rfl⟩
    | tail _ hs =>
      cases hs with
      | head => exact ⟨true, rfl⟩
      | tail _ hs => cases hs

theorem takingTurns_printing :
    Submissions.AllByRuns printing Submissions.jobsOfBoth Submissions.pendingBoth Submissions.takingTurns := by
  unfold Submissions.AllByRuns
  decide +kernel

/-- Rows in the order of the table, when that is the order of their times. -/
theorem standingsRows_filter {log : List Submission} {contestId : Id}
    (h : ((log.filter fun s => s.contestId = contestId).map acceptedAt).Pairwise (· ≤ ·)) :
    StandingsRows log contestId (log.filter fun s => s.contestId = contestId) where
  perm := .refl _
  asc := by
    refine (List.pairwise_map.mp h).imp ?_
    intro a b hle s t hs ht
    rw [acceptedAt_of_submittedAt hs, acceptedAt_of_submittedAt ht] at hle
    exact hle

/-- The second submission fails its test: one user has solved the problem. -/
theorem final_standings_both :
    ∃ payload payload',
      computeStandings compareCodePoints "c1" (some spring)
        ((logOf (Submissions.together Submissions.jobsOfBoth Submissions.pendingBoth
          Submissions.takingTurns).state).filter fun s => s.contestId = "c1") 0 = .ok payload ∧
      computeStandings compareCodePoints "c1" (some spring)
        ((settledLog printing Submissions.pendingBoth).filter fun s => s.contestId = "c1") 0 = .ok payload' ∧
      SameEntries payload.entries payload'.entries := by
  have hdone : ∀ i, ∃ res, (Submissions.together Submissions.jobsOfBoth Submissions.pendingBoth
      Submissions.takingTurns).tasks i = .ret res := by
    intro i
    cases i with
    | false => exact ⟨_, rfl⟩
    | true => exact ⟨_, rfl⟩
  refine final_standings jobsOfBoth_queued Submissions.takingTurns_fresh takingTurns_printing hdone
    compareCodePoints spring ⟨?_, ?_⟩ 0 0 (standingsRows_filter ?_) (standingsRows_filter ?_)
  · intro s hs
    exact Option.isSome_iff_exists.mp (by revert s; decide)
  · decide
  · decide +kernel
  · decide +kernel

end CodeWeaknesses.Leaderboard
