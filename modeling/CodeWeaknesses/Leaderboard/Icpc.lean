import CodeWeaknesses.Leaderboard.Service
import CodeWeaknesses.Lib.Icpc

/-!
# `computeStandings` computes ICPC standings

The maps that `computeStandings` fills imperatively, related to the declarative
ICPC scoring of `Lib.Icpc`: every user's entry describes, problem by problem,
the sublist of the rows that the user submitted to that problem.

Results:
* `get?_groupSubmissions`: the nested map groups the rows by user and problem.
* `buildEntry_solved`, `buildEntry_totalPenalty`: the accumulated totals are
  sums of problem scores.
* `computeStandings_icpc`: the returned entries are the ICPC standings of the
  rows, and rows that do not count leave every total unchanged.
-/

namespace CodeWeaknesses.Leaderboard

open Lib

/-- An accepted submission. -/
def isAccepted (s : Submission) : Bool := decide (s.status = .accepted)

/-- A submission with a penalised status. -/
def isPenalised (s : Submission) : Bool := isPenalisable s.status

/-- `timeMinutes` of an accepted submission. -/
def solveMinutes (contestStart : Date) (s : Submission) : ℤ :=
  max 0 (mathFloorDiv (acceptedAt s - contestStart) 60000)

/-- The rows of user `u` on problem `p`, in row order. -/
def rowsOn (rows : List Submission) (u p : Id) : List Submission :=
  (rows.filter fun s => s.userId = u).filter fun s => s.problemId = p

theorem mem_rowsOn {rows : List Submission} {u p : Id} {s : Submission} :
    s ∈ rowsOn rows u p ↔ s ∈ rows ∧ s.userId = u ∧ s.problemId = p := by
  simp only [rowsOn, List.mem_filter, decide_eq_true_eq, and_assoc]

/-! ## The grouping loop -/

/-- One round of the grouping loop rewrites the group of one user. -/
theorem addSubmission_eq (byUser : SubmissionGroup) (sub : Submission) :
    addSubmission byUser sub =
      byUser.set sub.userId
        (((byUser.get? sub.userId).getD .empty).set sub.problemId
          (((((byUser.get? sub.userId).getD .empty).get? sub.problemId).getD []) ++ [sub])) := by
  have hinner : ∀ m : OrdMap Id (List Submission),
      (if m.has sub.problemId then m else m.set sub.problemId []).set sub.problemId
        ((((if m.has sub.problemId then m else m.set sub.problemId []).get? sub.problemId).getD []) ++
          [sub]) = m.set sub.problemId (((m.get? sub.problemId).getD []) ++ [sub]) := by
    intro m
    cases hp : m.get? sub.problemId with
    | none => simp [OrdMap.has_eq_isSome, hp, OrdMap.set_set]
    | some l => simp [OrdMap.has_eq_isSome, hp]
  unfold addSubmission
  cases hu : byUser.get? sub.userId with
  | none => simp [OrdMap.has_eq_isSome, hu, OrdMap.set_set]
  | some m => simpa [OrdMap.has_eq_isSome, hu] using congrArg (byUser.set sub.userId) (hinner m)

theorem groupSubmissions_eq (rows : List Submission) :
    groupSubmissions rows =
      OrdMap.upsertAll (fun s : Submission => s.userId)
        (fun o s => (o.getD .empty).set s.problemId ((((o.getD .empty).get? s.problemId).getD []) ++ [s]))
        .empty rows := by
  unfold groupSubmissions OrdMap.upsertAll
  congr 1
  funext m s
  exact addSubmission_eq m s

/-- The nested map holds, for each user with a row, that user's rows grouped by
    problem. -/
theorem get?_groupSubmissions (rows : List Submission) (u : Id) :
    (groupSubmissions rows).get? u =
      if (rows.filter fun s => s.userId = u) = [] then none
      else some (OrdMap.groupBy (fun s : Submission => s.problemId)
        (rows.filter fun s => s.userId = u)) := by
  rw [groupSubmissions_eq, OrdMap.get?_upsertAll_empty _ _ .empty (fun _ => rfl)]
  rfl

theorem mem_keys_groupSubmissions (rows : List Submission) {u : Id} :
    u ∈ (groupSubmissions rows).keys ↔ ∃ s ∈ rows, s.userId = u := by
  simp [groupSubmissions_eq, OrdMap.mem_keys_upsertAll]

/-- What `for (const [userId, byProblem] of byUser)` iterates over. -/
theorem mem_groupSubmissions {rows : List Submission} {g : Id × OrdMap Id (List Submission)} :
    g ∈ (groupSubmissions rows).entries ↔
      (∃ s ∈ rows, s.userId = g.1) ∧
        g.2 = OrdMap.groupBy (fun s : Submission => s.problemId)
          (rows.filter fun s => s.userId = g.1) := by
  obtain ⟨u, m⟩ := g
  rw [OrdMap.mem_entries_iff, get?_groupSubmissions]
  split_ifs with h
  · simp only [false_iff, not_and]
    rintro ⟨s, hs, hu⟩
    rw [List.filter_eq_nil_iff] at h
    exact absurd (by simpa using hu) (h s hs)
  · obtain ⟨s, hs⟩ := List.exists_mem_of_ne_nil _ h
    rw [List.mem_filter] at hs
    have hex : ∃ s ∈ rows, s.userId = u := ⟨s, hs.1, by simpa using hs.2⟩
    simp only [Option.some.injEq, hex, true_and]
    exact eq_comm

/-! ## The counting loop -/

/-- The loop with its early exit returns the first accepted submission and the
    penalised ones before it. -/
theorem countAttempts_eq (subs : List Submission) (w : ℕ) :
    countAttempts subs w =
      (w + Icpc.attemptsBefore isAccepted isPenalised subs, Icpc.firstAccepted isAccepted subs) := by
  induction subs generalizing w with
  | nil => rfl
  | cons s subs ih =>
    rw [countAttempts, Icpc.attemptsBefore_cons, Icpc.firstAccepted_cons]
    by_cases ha : s.status = .accepted
    · simp [ha, isAccepted]
    · by_cases hp : isPenalisable s.status = true
      · simp [ha, hp, ih, isAccepted, isPenalised, Nat.add_assoc]
      · simp [ha, hp, ih, isAccepted, isPenalised]

/-- The standing stored for a problem with submissions `subs`. -/
def standing (contestStart : Date) (p : Id) (subs : List Submission) : ProblemStanding :=
  match Icpc.firstAccepted isAccepted subs with
  | some s =>
    { problemId := p, solved := true, attempts := Icpc.attemptsBefore isAccepted isPenalised subs,
      acceptedAt := some (acceptedAt s), timeMinutes := some (solveMinutes contestStart s),
      penaltyMinutes := some (solveMinutes contestStart s +
        20 * Icpc.attemptsBefore isAccepted isPenalised subs) }
  | none =>
    { problemId := p, solved := false, attempts := Icpc.attemptsBefore isAccepted isPenalised subs,
      acceptedAt := none, timeMinutes := none, penaltyMinutes := none }

theorem solvedCount_standing (T : Date) (p : Id) (subs : List Submission) :
    Icpc.solvedCount isAccepted subs = if (standing T p subs).solved then 1 else 0 := by
  unfold Icpc.solvedCount standing
  cases Icpc.firstAccepted isAccepted subs <;> rfl

theorem penalty_standing (T : Date) (p : Id) (subs : List Submission) :
    Icpc.penalty isAccepted isPenalised (solveMinutes T) subs =
      if (standing T p subs).solved then (standing T p subs).penaltyMinutes.getD 0 else 0 := by
  unfold Icpc.penalty standing
  cases Icpc.firstAccepted isAccepted subs <;> rfl

theorem addProblem_eq (T : Date) (t : EntryTotals) (e : Id × List Submission) :
    addProblem T t e =
      { totalSolved := t.totalSolved + Icpc.solvedCount isAccepted e.2
        totalPenalty := t.totalPenalty + Icpc.penalty isAccepted isPenalised (solveMinutes T) e.2
        problemStandings := t.problemStandings.set e.1 (standing T e.1 e.2) } := by
  obtain ⟨p, subs⟩ := e
  unfold addProblem standing Icpc.solvedCount Icpc.penalty
  simp only [countAttempts_eq, Nat.zero_add]
  cases Icpc.firstAccepted isAccepted subs with
  | none => simp
  | some s => simp [solveMinutes]

/-- The three accumulators of the problem loop, carried separately. -/
theorem foldl_addProblem (T : Date) (l : List (Id × List Submission)) (t : EntryTotals) :
    l.foldl (addProblem T) t =
      { totalSolved := t.totalSolved + (l.map fun e => Icpc.solvedCount isAccepted e.2).sum
        totalPenalty := t.totalPenalty +
          (l.map fun e => Icpc.penalty isAccepted isPenalised (solveMinutes T) e.2).sum
        problemStandings :=
          l.foldl (fun acc e => acc.set e.1 (standing T e.1 e.2)) t.problemStandings } := by
  induction l generalizing t with
  | nil => simp
  | cons e l ih => simp only [List.foldl_cons, ih, addProblem_eq, List.map_cons, List.sum_cons, add_assoc]

/-! ## One entry -/

/-- The problems user `u` submitted to. -/
def problemsOf (rows : List Submission) (u : Id) : Finset Id :=
  ((rows.filter fun s => s.userId = u).map fun s => s.problemId).toFinset

theorem mem_problemsOf {rows : List Submission} {u p : Id} :
    p ∈ problemsOf rows u ↔ ∃ s ∈ rows, s.userId = u ∧ s.problemId = p := by
  simp [problemsOf, List.mem_filter, and_assoc]

theorem buildEntry_problems (T : Date) (rows : List Submission) (g : Id × OrdMap Id (List Submission)) :
    (buildEntry T rows g).problems.entries = g.2.entries.map fun e => (e.1, standing T e.1 e.2) := by
  simp only [buildEntry, foldl_addProblem]
  rw [OrdMap.entries_foldl_set (standing T) g.2.entries .empty (by simpa using g.2.nodup)]
  rfl

/-- `solved` counts the problems of the user with an accepted submission. -/
theorem buildEntry_solved (T : Date) {rows : List Submission} {g : Id × OrdMap Id (List Submission)}
    (hg : g ∈ (groupSubmissions rows).entries) :
    (buildEntry T rows g).solved =
      ∑ p ∈ problemsOf rows g.1, Icpc.solvedCount isAccepted (rowsOn rows g.1 p) := by
  simp only [buildEntry, foldl_addProblem, zero_add]
  rw [(mem_groupSubmissions.mp hg).2, OrdMap.sum_groupBy]
  rfl

/-- `totalPenalty` adds up the penalties of the user's problems. -/
theorem buildEntry_totalPenalty (T : Date) {rows : List Submission}
    {g : Id × OrdMap Id (List Submission)} (hg : g ∈ (groupSubmissions rows).entries) :
    (buildEntry T rows g).totalPenalty =
      ∑ p ∈ problemsOf rows g.1,
        Icpc.penalty isAccepted isPenalised (solveMinutes T) (rowsOn rows g.1 p) := by
  simp only [buildEntry, foldl_addProblem, zero_add]
  rw [(mem_groupSubmissions.mp hg).2, OrdMap.sum_groupBy]
  rfl

/-- The problems of an entry, looked up by id. -/
theorem get?_buildEntry_problems (T : Date) {rows : List Submission}
    {g : Id × OrdMap Id (List Submission)} (hg : g ∈ (groupSubmissions rows).entries) (p : Id) :
    (buildEntry T rows g).problems.get? p =
      if rowsOn rows g.1 p = [] then none else some (standing T p (rowsOn rows g.1 p)) := by
  rw [OrdMap.get?_of_entries_map (standing T) (buildEntry_problems T rows g),
    (mem_groupSubmissions.mp hg).2, OrdMap.get?_groupBy]
  unfold rowsOn
  split_ifs <;> rfl

/-- The totals of an entry, recomputed from its standings. -/
theorem buildEntry_totals (T : Date) (rows : List Submission) (g : Id × OrdMap Id (List Submission)) :
    (buildEntry T rows g).solved = (buildEntry T rows g).problems.values.countP (fun st => st.solved) ∧
    (buildEntry T rows g).totalPenalty =
      (((buildEntry T rows g).problems.values.filter fun st => st.solved).map
        fun st => st.penaltyMinutes.getD 0).sum := by
  rw [OrdMap.values, buildEntry_problems]
  simp only [buildEntry, foldl_addProblem, zero_add, List.map_map, Function.comp_def]
  induction g.2.entries with
  | nil => simp
  | cons e l ih =>
    obtain ⟨ih1, ih2⟩ := ih
    simp only [List.map_cons, List.sum_cons, List.countP_cons, List.filter_cons, ih1, ih2,
      solvedCount_standing T e.1 e.2, penalty_standing T e.1 e.2]
    cases (standing T e.1 e.2).solved <;> simp [Nat.add_comm]

/-! ## The returned entries -/

theorem mem_buildEntries {T : Date} {rows : List Submission} {e : LeaderboardEntry} :
    e ∈ buildEntries T rows ↔
      ∃ g ∈ (groupSubmissions rows).entries, buildEntry T rows g = e := by
  simp [buildEntries]

theorem map_userId_buildEntries (T : Date) (rows : List Submission) :
    (buildEntries T rows).map (fun e => e.userId) = (groupSubmissions rows).keys := by
  simp only [buildEntries, List.map_map]
  rfl

/-- The entries `computeStandings` returns for the contest start `T` and the rows. -/
def returnedEntries (localeCompare : String → String → ℤ) (T : Date) (rows : List Submission) :
    List LeaderboardEntry :=
  (sortBy (compareEntries localeCompare) (buildEntries T rows)).map (withRank (buildEntries T rows))

/-- Every returned entry is the built entry of one user, with a rank. -/
theorem mem_returnedEntries {localeCompare : String → String → ℤ} {T : Date} {rows : List Submission}
    {e : LeaderboardEntry} :
    e ∈ returnedEntries localeCompare T rows ↔
      ∃ g ∈ (groupSubmissions rows).entries, withRank (buildEntries T rows) (buildEntry T rows g) = e := by
  simp only [returnedEntries, List.mem_map, mem_sortBy, mem_buildEntries]
  constructor
  · rintro ⟨_, ⟨g, hg, rfl⟩, rfl⟩; exact ⟨g, hg, rfl⟩
  · rintro ⟨g, hg, rfl⟩; exact ⟨_, ⟨g, hg, rfl⟩, rfl⟩

theorem map_userId_returnedEntries (localeCompare : String → String → ℤ) (T : Date)
    (rows : List Submission) :
    ((returnedEntries localeCompare T rows).map fun e => e.userId).Perm (groupSubmissions rows).keys := by
  rw [← map_userId_buildEntries T rows, returnedEntries, List.map_map]
  exact (sortBy_perm _ _).map _

/-- Solved problems and total penalty of `u` in a list of entries; `(0, 0)` for
    a user without an entry. -/
def tally (entries : List LeaderboardEntry) (u : Id) : ℕ × ℤ :=
  ((entries.find? fun e => e.userId = u).map fun e => (e.solved, e.totalPenalty)).getD (0, 0)

/-- Solved problems and total penalty of `u` by the ICPC rules. -/
def score (T : Date) (rows : List Submission) (u : Id) : ℕ × ℤ :=
  (∑ p ∈ problemsOf rows u, Icpc.solvedCount isAccepted (rowsOn rows u p),
    ∑ p ∈ problemsOf rows u, Icpc.penalty isAccepted isPenalised (solveMinutes T) (rowsOn rows u p))

theorem problemsOf_eq_empty {rows : List Submission} {u : Id} (h : ∀ s ∈ rows, s.userId ≠ u) :
    problemsOf rows u = ∅ := by
  rw [Finset.eq_empty_iff_forall_notMem]
  intro p hp
  obtain ⟨s, hs, hu, -⟩ := mem_problemsOf.mp hp
  exact h s hs hu

theorem tally_returnedEntries (localeCompare : String → String → ℤ) (T : Date) (rows : List Submission)
    (u : Id) : tally (returnedEntries localeCompare T rows) u = score T rows u := by
  unfold tally
  cases h : (returnedEntries localeCompare T rows).find? fun e => e.userId = u with
  | some e =>
    obtain ⟨g, hg, rfl⟩ := mem_returnedEntries.mp (List.mem_of_find?_eq_some h)
    have hu : g.1 = u := by simpa [withRank, buildEntry] using List.find?_some h
    subst hu
    exact Prod.ext (buildEntry_solved T hg) (buildEntry_totalPenalty T hg)
  | none =>
    have hno : ∀ s ∈ rows, s.userId ≠ u := by
      intro s hs hu
      have hmem : u ∈ (returnedEntries localeCompare T rows).map fun e => e.userId :=
        (map_userId_returnedEntries localeCompare T rows).mem_iff.mpr
          ((mem_keys_groupSubmissions rows).mpr ⟨s, hs, hu⟩)
      obtain ⟨e, he, heu⟩ := List.mem_map.mp hmem
      simpa [heu] using List.find?_eq_none.mp h e he
    simp [score, problemsOf_eq_empty hno]

/-- Problems without rows score nothing, so a larger set of problems gives the
    same sums. -/
theorem score_eq_sum (T : Date) (rows : List Submission) (u : Id) {S : Finset Id}
    (hS : problemsOf rows u ⊆ S) :
    score T rows u =
      (∑ p ∈ S, Icpc.solvedCount isAccepted (rowsOn rows u p),
        ∑ p ∈ S, Icpc.penalty isAccepted isPenalised (solveMinutes T) (rowsOn rows u p)) := by
  have hnil : ∀ p, p ∉ problemsOf rows u → rowsOn rows u p = [] := by
    intro p hp
    rw [List.eq_nil_iff_forall_not_mem]
    intro s hs
    exact hp (mem_problemsOf.mpr ⟨s, mem_rowsOn.mp hs⟩)
  unfold score
  rw [Finset.sum_subset hS fun p _ hp => by rw [hnil p hp]; rfl,
    Finset.sum_subset hS fun p _ hp => by rw [hnil p hp]; rfl]

/-! ## Rows that do not count -/

/-- `s` is PENDING or RUNNING, or one of the earlier rows `seen` is an accepted
    one of the same user on the same problem. -/
def idle (seen : List Submission) (s : Submission) : Bool :=
  decide (s.status = .pending) || decide (s.status = .running) ||
    seen.any fun s' => isAccepted s' && decide (s'.userId = s.userId) && decide (s'.problemId = s.problemId)

/-- Delete the idle rows; `seen` holds the rows before. -/
def dropIdleRows : List Submission → List Submission → List Submission
  | _, [] => []
  | seen, s :: rows =>
    if idle seen s then dropIdleRows (s :: seen) rows else s :: dropIdleRows (s :: seen) rows

theorem accepted_or_penalised (s : Submission) :
    (isAccepted s || isPenalised s) = !(decide (s.status = .pending) || decide (s.status = .running)) := by
  cases h : s.status <;> simp [isAccepted, isPenalised, isPenalisable, h]

/-- For one user and problem, deleting idle rows is deleting idle attempts. -/
theorem rowsOn_dropIdleRows (u p : Id) (rows : List Submission) : ∀ seen : List Submission,
    rowsOn (dropIdleRows seen rows) u p =
      Icpc.dropIdle isAccepted isPenalised ((rowsOn seen u p).any isAccepted) (rowsOn rows u p) := by
  induction rows with
  | nil => intro seen; rfl
  | cons s rows ih =>
    intro seen
    have hon : ∀ l, rowsOn (s :: l) u p =
        if s.userId = u ∧ s.problemId = p then s :: rowsOn l u p else rowsOn l u p := by
      intro l
      by_cases hu : s.userId = u <;> by_cases hp : s.problemId = p <;> simp [rowsOn, hu, hp]
    have hih := ih (s :: seen)
    rw [hon seen] at hih
    by_cases h : s.userId = u ∧ s.problemId = p
    · have hidle : idle seen s =
          ((rowsOn seen u p).any isAccepted || !(isAccepted s || isPenalised s)) := by
        rw [accepted_or_penalised, Bool.not_not, idle, Bool.or_comm, rowsOn, List.any_filter,
          List.any_filter, h.1, h.2]
        congr 1
        apply List.any_congr rfl
        intro s'
        ac_rfl
      rw [if_pos h] at hih
      rw [hon, if_pos h, Icpc.dropIdle, ← hidle, dropIdleRows]
      split_ifs
      · rw [hih, List.any_cons, Bool.or_comm]
      · rw [hon, if_pos h, hih, List.any_cons, Bool.or_comm]
    · rw [if_neg h] at hih
      rw [hon, if_neg h, ← hih, dropIdleRows]
      split_ifs
      · rfl
      · rw [hon, if_neg h]

theorem problemsOf_dropIdleRows (rows : List Submission) (u : Id) :
    problemsOf (dropIdleRows [] rows) u ⊆ problemsOf rows u := by
  have hmem : ∀ rows seen, ∀ s ∈ dropIdleRows seen rows, s ∈ rows := by
    intro rows
    induction rows with
    | nil => intro seen s hs; exact hs
    | cons s rows ih =>
      intro seen s' hs'
      rw [dropIdleRows] at hs'
      split_ifs at hs'
      · exact List.mem_cons_of_mem _ (ih _ _ hs')
      · rcases List.mem_cons.mp hs' with rfl | hs'
        · exact List.mem_cons_self
        · exact List.mem_cons_of_mem _ (ih _ _ hs')
  intro p hp
  obtain ⟨s, hs, h⟩ := mem_problemsOf.mp hp
  exact mem_problemsOf.mpr ⟨s, hmem rows [] s hs, h⟩

theorem score_dropIdleRows (T : Date) (rows : List Submission) (u : Id) :
    score T (dropIdleRows [] rows) u = score T rows u := by
  rw [score_eq_sum T _ u (problemsOf_dropIdleRows rows u), score]
  simp only [rowsOn_dropIdleRows]
  congr 1
  · exact Finset.sum_congr rfl fun p _ => Icpc.solvedCount_dropIdle _ _ _
  · exact Finset.sum_congr rfl fun p _ => Icpc.penalty_dropIdle _ _ _ _

/-! ## Main theorem -/

/-- `st` is the standing of problem `p` for the submissions `subs` of one user
    on it, in the order of the rows. -/
structure IsStanding (T : Date) (p : Id) (subs : List Submission) (st : ProblemStanding) : Prop where
  problemId_eq : st.problemId = p
  solved_iff : st.solved = true ↔ ∃ s ∈ subs, s.status = .accepted
  attempts_eq : st.attempts = (subs.takeWhile fun s => s.status ≠ .accepted).countP fun s =>
    s.status ∈ [SubmissionStatus.wrong, .tle, .mle, .runtimeError, .compilationError]
  penaltyMinutes_eq : ∀ s t, subs.find? (fun s => s.status = .accepted) = some s →
    s.submittedAt = some t →
      st.penaltyMinutes = some (max 0 ⌊((t - T : ℤ) : ℚ) / 60000⌋ + 20 * st.attempts)

/-- `entries` are the ICPC standings of the rows of a contest that started at `T`. -/
structure IcpcStandings (T : Date) (rows : List Submission) (entries : List LeaderboardEntry) : Prop where
  users_nodup : (entries.map fun e => e.userId).Nodup
  users_iff : ∀ u, u ∈ entries.map (fun e => e.userId) ↔ ∃ s ∈ rows, s.userId = u
  problems_iff : ∀ e ∈ entries, ∀ p,
    p ∈ e.problems.keys ↔ ∃ s ∈ rows, s.userId = e.userId ∧ s.problemId = p
  standing : ∀ e ∈ entries, ∀ p st, e.problems.get? p = some st →
    IsStanding T p (rows.filter fun s => s.userId = e.userId ∧ s.problemId = p) st
  solved_eq : ∀ e ∈ entries, e.solved = e.problems.values.countP fun st => st.solved
  totalPenalty_eq : ∀ e ∈ entries, e.totalPenalty =
    ((e.problems.values.filter fun st => st.solved).map fun st => st.penaltyMinutes.getD 0).sum

theorem mathFloorDiv_eq_floor (num : ℤ) (den : ℕ) : mathFloorDiv num den = ⌊(num : ℚ) / den⌋ := by
  rw [Rat.floor_intCast_div_natCast, mathFloorDiv]

theorem standing_isStanding (T : Date) (p : Id) (subs : List Submission) :
    IsStanding T p subs (standing T p subs) := by
  have hattempts : Icpc.attemptsBefore isAccepted isPenalised subs =
      (subs.takeWhile fun s => s.status ≠ .accepted).countP fun s =>
        s.status ∈ [SubmissionStatus.wrong, .tle, .mle, .runtimeError, .compilationError] := by
    have hpen : isPenalised = fun s : Submission => decide (s.status ∈
        [SubmissionStatus.wrong, .tle, .mle, .runtimeError, .compilationError]) := by
      funext s; simp [isPenalised, isPenalisable]
    rw [Icpc.attemptsBefore, hpen]
    simp only [isAccepted, ne_eq, decide_not]
  have hfind : Icpc.firstAccepted isAccepted subs = subs.find? fun s => s.status = .accepted := rfl
  constructor
  · unfold standing; split <;> rfl
  · have hsolved : (standing T p subs).solved = (Icpc.firstAccepted isAccepted subs).isSome := by
      unfold standing
      cases Icpc.firstAccepted isAccepted subs <;> rfl
    rw [hsolved, Icpc.firstAccepted_isSome_iff]
    simp only [isAccepted, decide_eq_true_eq]
  · rw [← hattempts]; unfold standing; split <;> rfl
  · intro s t hs ht
    have htime : solveMinutes T s = max 0 ⌊((t - T : ℤ) : ℚ) / 60000⌋ := by
      rw [solveMinutes, acceptedAt, ht, mathFloorDiv_eq_floor]
      norm_num
    unfold standing
    rw [hfind, hs, ← htime]

theorem returnedEntries_icpc (localeCompare : String → String → ℤ) (T : Date) (rows : List Submission) :
    IcpcStandings T rows (returnedEntries localeCompare T rows) := by
  have hperm := map_userId_returnedEntries localeCompare T rows
  have hrows : ∀ u p, (rows.filter fun s => s.userId = u ∧ s.problemId = p) = rowsOn rows u p := by
    intro u p
    rw [rowsOn, List.filter_filter]
    apply List.filter_congr
    intro s _
    simp [Bool.and_comm]
  constructor
  · exact hperm.nodup_iff.mpr (groupSubmissions rows).nodup
  · intro u; rw [hperm.mem_iff, mem_keys_groupSubmissions]
  · intro e he p
    obtain ⟨g, hg, rfl⟩ := mem_returnedEntries.mp he
    change p ∈ (buildEntry T rows g).problems.keys ↔ ∃ s ∈ rows, s.userId = g.1 ∧ s.problemId = p
    rw [OrdMap.mem_keys_iff, get?_buildEntry_problems T hg]
    constructor
    · rintro ⟨st, hst⟩
      split_ifs at hst with hnil
      obtain ⟨s, hs⟩ := List.exists_mem_of_ne_nil _ hnil
      exact ⟨s, mem_rowsOn.mp hs⟩
    · rintro ⟨s, hs⟩
      exact ⟨_, if_neg (List.ne_nil_of_mem (mem_rowsOn.mpr hs))⟩
  · intro e he p st hst
    obtain ⟨g, hg, rfl⟩ := mem_returnedEntries.mp he
    change (buildEntry T rows g).problems.get? p = some st at hst
    rw [get?_buildEntry_problems T hg] at hst
    split_ifs at hst
    cases hst
    change IsStanding T p (rows.filter fun s => s.userId = g.1 ∧ s.problemId = p) _
    rw [hrows]
    exact standing_isStanding T p _
  · intro e he
    obtain ⟨g, hg, rfl⟩ := mem_returnedEntries.mp he
    exact (buildEntry_totals T rows g).1
  · intro e he
    obtain ⟨g, hg, rfl⟩ := mem_returnedEntries.mp he
    exact (buildEntry_totals T rows g).2

/-- **`computeStandings` returns the ICPC standings** of its rows, whatever the
    interleaving of users, problems and statuses. Deleting the rows that are
    PENDING or RUNNING, or come after the user's first ACCEPTED row on the same
    problem, changes no user's `solved` and `totalPenalty`. -/
theorem computeStandings_icpc (localeCompare : String → String → ℤ) (contest : Contest)
    (rows : List Submission) (now : Date) :
    ∃ payload payload' : LeaderboardPayload,
      computeStandings localeCompare contest.id (some contest) rows now = .ok payload ∧
      IcpcStandings contest.startTime rows payload.entries ∧
      computeStandings localeCompare contest.id (some contest) (dropIdleRows [] rows) now =
        .ok payload' ∧
      ∀ u, tally payload'.entries u = tally payload.entries u := by
  refine ⟨_, _, computeStandings_eq .., ?_, computeStandings_eq .., ?_⟩
  · exact returnedEntries_icpc localeCompare contest.startTime rows
  · intro u
    have h := tally_returnedEntries localeCompare contest.startTime rows u
    have h' := tally_returnedEntries localeCompare contest.startTime (dropIdleRows [] rows) u
    rw [score_dropIdleRows] at h'
    exact h'.trans h.symm

end CodeWeaknesses.Leaderboard
