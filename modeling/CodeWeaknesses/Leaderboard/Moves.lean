import CodeWeaknesses.Leaderboard.Ranks

/-!
# How new verdicts move the standings

Two runs of `computeStandings` are compared: on the rows `L` and on `L` with one more row at
the end, or with one row accepted.

Results:
* `rank_eq_rankAmong`: the rank of an entry, from the ICPC scores of the users with a row.
* `score_noWorse`: if one problem of a user is scored no worse, so is the user.
* `computeStandings_moves`: **one more row moves nobody but its user, and the others by
  one rank at most; an accepted row makes its user no worse.**
-/

namespace CodeWeaknesses.Leaderboard

open Lib

/-! ## Entries and scores -/

/-- The sort key of a pair of solved problems and penalty. -/
def pairKey (x : ℕ × ℤ) : ℕᵒᵈ ×ₗ ℤ := toLex (OrderDual.toDual x.1, x.2)

theorem pairKey_le_of_noWorse {x y : ℕ × ℤ} (h : Icpc.NoWorse x y) : pairKey x ≤ pairKey y := by
  unfold pairKey
  rw [Prod.Lex.toLex_le_toLex]
  rcases h with hmore | ⟨heq, hle⟩
  · exact .inl hmore
  · exact .inr ⟨congrArg OrderDual.toDual heq, hle⟩

/-- The users with a row. -/
def usersOf (rows : List Submission) : Finset Id := (groupSubmissions rows).keys.toFinset

theorem mem_usersOf {rows : List Submission} {u : Id} : u ∈ usersOf rows ↔ ∃ s ∈ rows, s.userId = u := by
  rw [usersOf, List.mem_toFinset, mem_keys_groupSubmissions]

theorem usersOf_snoc (rows : List Submission) (s : Submission) :
    usersOf (rows ++ [s]) = insert s.userId (usersOf rows) := by
  ext u
  rw [Finset.mem_insert, mem_usersOf, mem_usersOf]
  constructor
  · rintro ⟨r, hr, rfl⟩
    rcases List.mem_append.mp hr with hr | hr
    · exact .inr ⟨r, hr, rfl⟩
    · rw [List.mem_singleton.mp hr]
      exact .inl rfl
  · rintro (rfl | ⟨r, hr, rfl⟩)
    · exact ⟨s, List.mem_append_right _ (List.mem_singleton_self s), rfl⟩
    · exact ⟨r, List.mem_append_left _ hr, rfl⟩

/-- The key of an entry is the score of the user's rows. -/
theorem standingKey_buildEntry (T : Date) {rows : List Submission} {g : Id × OrdMap Id (List Submission)}
    (hg : g ∈ (groupSubmissions rows).entries) :
    standingKey (buildEntry T rows g) = pairKey (score T rows g.1) := by
  unfold standingKey pairKey score
  rw [buildEntry_solved T hg, buildEntry_totalPenalty T hg]

/-- The rank of an entry, from the scores. -/
theorem rank_eq_rankAmong {localeCompare : String → String → ℤ} {T : Date} {rows : List Submission}
    {e : LeaderboardEntry} (he : e ∈ returnedEntries localeCompare T rows) :
    e.rank = rankAmong (usersOf rows) (fun u => pairKey (score T rows u)) e.userId := by
  obtain ⟨g, hg, rfl⟩ := mem_returnedEntries.mp he
  show 1 + (buildEntries T rows).countP (fun e' => Better e' (buildEntry T rows g)) =
    1 + ((usersOf rows).filter fun v => pairKey (score T rows v) < pairKey (score T rows g.1)).card
  have hcount : (buildEntries T rows).countP (fun e' => Better e' (buildEntry T rows g)) =
      (groupSubmissions rows).keys.countP fun v => pairKey (score T rows v) < pairKey (score T rows g.1) := by
    rw [buildEntries, OrdMap.keys, List.countP_map, List.countP_map]
    refine List.countP_congr fun g' hg' => ?_
    simp only [Function.comp_apply, decide_eq_true_eq]
    rw [← standingKey_lt_iff, standingKey_buildEntry T hg, standingKey_buildEntry T hg']
  have hfilter : (usersOf rows).filter (fun v => pairKey (score T rows v) < pairKey (score T rows g.1)) =
      ((groupSubmissions rows).keys.filter fun v => pairKey (score T rows v) < pairKey (score T rows g.1)).toFinset := by
    ext v
    simp only [usersOf, Finset.mem_filter, List.mem_toFinset, List.mem_filter, decide_eq_true_eq]
  have hnodup : (groupSubmissions rows).keys.Nodup := (groupSubmissions rows).nodup
  rw [hcount, hfilter, List.countP_eq_length_filter, List.toFinset_card_of_nodup (hnodup.filter _)]

/-! ## Rows of the other users -/

theorem rowsOn_append (rows rows' : List Submission) (u p : Id) :
    rowsOn (rows ++ rows') u p = rowsOn rows u p ++ rowsOn rows' u p := by
  simp only [rowsOn, List.filter_append]

theorem rowsOn_cons_self {s : Submission} {rows : List Submission} {u p : Id} (hu : s.userId = u)
    (hp : s.problemId = p) : rowsOn (s :: rows) u p = s :: rowsOn rows u p := by
  simp [rowsOn, hu, hp]

theorem rowsOn_cons_of_ne {s : Submission} {rows : List Submission} {u p : Id}
    (h : ¬(s.userId = u ∧ s.problemId = p)) : rowsOn (s :: rows) u p = rowsOn rows u p := by
  by_cases hu : s.userId = u
  · have hp : s.problemId ≠ p := fun hp => h ⟨hu, hp⟩
    simp [rowsOn, hu, hp]
  · simp [rowsOn, hu]

/-- Without a change on any problem of `u` the score of `u` stays. -/
theorem score_congr (T : Date) {rows rows' : List Submission} {u : Id}
    (h : ∀ p, rowsOn rows' u p = rowsOn rows u p) : score T rows' u = score T rows u := by
  have hproblems : problemsOf rows' u = problemsOf rows u := by
    ext p
    have hmem : ∀ l : List Submission, p ∈ problemsOf l u ↔ rowsOn l u p ≠ [] := by
      intro l
      rw [mem_problemsOf]
      constructor
      · rintro ⟨s, hs⟩
        exact List.ne_nil_of_mem (mem_rowsOn.mpr hs)
      · intro hne
        obtain ⟨s, hs⟩ := List.exists_mem_of_ne_nil _ hne
        exact ⟨s, mem_rowsOn.mp hs⟩
    rw [hmem, hmem, h]
  unfold score
  rw [hproblems]
  simp only [h]

/-- If one problem of `u` is scored no worse and the others have their rows, `u` is no worse. -/
theorem score_noWorse (T : Date) {rows rows' : List Submission} {u p : Id}
    (hothers : ∀ q, q ≠ p → rowsOn rows' u q = rowsOn rows u q)
    (hp : Icpc.NoWorse (Icpc.score isAccepted isPenalised (solveMinutes T) (rowsOn rows' u p))
      (Icpc.score isAccepted isPenalised (solveMinutes T) (rowsOn rows u p))) :
    Icpc.NoWorse (score T rows' u) (score T rows u) := by
  set S := insert p (problemsOf rows u ∪ problemsOf rows' u) with hS
  have hmem : p ∈ S := Finset.mem_insert_self ..
  rw [score_eq_sum T rows' u (S := S) (Finset.subset_union_right.trans (Finset.subset_insert ..)),
    score_eq_sum T rows u (S := S) (Finset.subset_union_left.trans (Finset.subset_insert ..))]
  have hrest : ∀ {M : Type} [AddCommMonoid M] (f : List Submission → M),
      ∑ q ∈ S.erase p, f (rowsOn rows' u q) = ∑ q ∈ S.erase p, f (rowsOn rows u q) := by
    intro M _ f
    refine Finset.sum_congr rfl fun q hq => ?_
    rw [hothers q (Finset.ne_of_mem_erase hq)]
  have hsum : ∀ {M : Type} [AddCommMonoid M] (f : List Submission → M),
      (∑ q ∈ S, f (rowsOn rows' u q)) + f (rowsOn rows u p) =
        (∑ q ∈ S, f (rowsOn rows u q)) + f (rowsOn rows' u p) := by
    intro M _ f
    rw [← Finset.add_sum_erase S (fun q => f (rowsOn rows' u q)) hmem,
      ← Finset.add_sum_erase S (fun q => f (rowsOn rows u q)) hmem, hrest f]
    abel
  exact hp.sums (hsum _) (hsum _)

/-! ## Standings of two runs -/

/-- The entries agree on solved problems, penalty and the standings of the problems. -/
def SameStanding (e e' : LeaderboardEntry) : Prop :=
  e'.solved = e.solved ∧ e'.totalPenalty = e.totalPenalty ∧ e'.problems = e.problems

theorem keys_buildEntry_problems (T : Date) {rows : List Submission} {g : Id × OrdMap Id (List Submission)}
    (hg : g ∈ (groupSubmissions rows).entries) :
    (buildEntry T rows g).problems.keys =
      (OrdMap.groupBy (fun s : Submission => s.problemId) (rows.filter fun s => s.userId = g.1)).keys := by
  rw [← (mem_groupSubmissions.mp hg).2, OrdMap.keys, buildEntry_problems, List.map_map]
  rfl

/-- The totals are read off the standings, so entries with the same standings agree. -/
theorem sameStanding_of_problems (T : Date) {rows rows' : List Submission}
    {g g' : Id × OrdMap Id (List Submission)}
    (h : (buildEntry T rows' g').problems = (buildEntry T rows g).problems) :
    SameStanding (buildEntry T rows g) (buildEntry T rows' g') := by
  obtain ⟨hsolved, hpenalty⟩ := buildEntry_totals T rows g
  obtain ⟨hsolved', hpenalty'⟩ := buildEntry_totals T rows' g'
  rw [h] at hsolved' hpenalty'
  exact ⟨hsolved'.trans hsolved.symm, hpenalty'.trans hpenalty.symm, h⟩

/-- `u` has an accepted row on `p`. -/
def HasSolved (rows : List Submission) (u p : Id) : Prop :=
  ∃ r ∈ rows, r.userId = u ∧ r.problemId = p ∧ r.status = .accepted

theorem firstAccepted_of_hasSolved {rows : List Submission} {u p : Id} (h : HasSolved rows u p) :
    (Icpc.firstAccepted isAccepted (rowsOn rows u p)).isSome = true := by
  obtain ⟨r, hr, hu, hp, hstatus⟩ := h
  rw [Icpc.firstAccepted_isSome_iff]
  exact ⟨r, mem_rowsOn.mpr ⟨hr, hu, hp⟩, decide_eq_true hstatus⟩

/-- Attempts after an accepted one do not change the standing. -/
theorem standing_append_of_accepted (T : Date) (p : Id) {subs : List Submission}
    (h : (Icpc.firstAccepted isAccepted subs).isSome = true) (subs' : List Submission) :
    standing T p (subs ++ subs') = standing T p subs := by
  have hfirst : Icpc.firstAccepted isAccepted (subs ++ subs') = Icpc.firstAccepted isAccepted subs := by
    obtain ⟨s, hs⟩ := Option.isSome_iff_exists.mp h
    rw [Icpc.firstAccepted_append, hs]
    rfl
  unfold standing
  rw [hfirst, Icpc.attemptsBefore_append_of_accepted isAccepted isPenalised h]

/-- One more row leaves the standings of another user, and those of a user who had solved its
    problem. -/
theorem problems_snoc (T : Date) {rows : List Submission} {s : Submission}
    {g g' : Id × OrdMap Id (List Submission)} (hg : g ∈ (groupSubmissions rows).entries)
    (hg' : g' ∈ (groupSubmissions (rows ++ [s])).entries) (hsame : g.1 = g'.1)
    (h : g.1 = s.userId → HasSolved rows s.userId s.problemId) :
    (buildEntry T (rows ++ [s]) g').problems = (buildEntry T rows g).problems := by
  refine OrdMap.ext_get? ?_ fun p => ?_
  · rw [keys_buildEntry_problems T hg, keys_buildEntry_problems T hg', ← hsame, List.filter_append]
    by_cases hu : g.1 = s.userId
    · obtain ⟨r, hr, hru, hrp, _⟩ := h hu
      have hmine : [s].filter (fun r => r.userId = g.1) = [s] := by simp [hu]
      rw [hmine]
      exact OrdMap.keys_groupBy_snoc _ ⟨r, List.mem_filter.mpr ⟨hr, decide_eq_true (hru.trans hu.symm)⟩, hrp⟩
    · have hnone : [s].filter (fun r => r.userId = g.1) = [] := by simp [Ne.symm hu]
      rw [hnone, List.append_nil]
  · rw [get?_buildEntry_problems T hg, get?_buildEntry_problems T hg', ← hsame, rowsOn_append]
    by_cases hs : s.userId = g.1 ∧ s.problemId = p
    · have hsolved := firstAccepted_of_hasSolved (h hs.1.symm)
      rw [hs.1, hs.2] at hsolved
      have hne : rowsOn rows g.1 p ≠ [] := by
        intro hnil
        rw [hnil] at hsolved
        cases hsolved
      rw [if_neg (by simp [hne]), if_neg hne, standing_append_of_accepted T p hsolved]
    · have hnil : rowsOn [s] g.1 p = [] := rowsOn_cons_of_ne hs
      rw [hnil, List.append_nil]

/-! ## Main theorem -/

/-- What one more row by `u` may change: `after` are the entries with it, `before` those without. -/
structure Moved (u : Id) (before after : List LeaderboardEntry) : Prop where
  users : ∀ v, v ∈ after.map (fun e => e.userId) ↔ v ∈ before.map (fun e => e.userId) ∨ v = u
  others : ∀ e ∈ before, ∀ e' ∈ after, e.userId = e'.userId → e.userId ≠ u →
    SameStanding e e' ∧ e.rank ≤ e'.rank ∧ e'.rank ≤ e.rank + 1
  own : ∀ e ∈ before, ∀ e' ∈ after, e.userId = u → e'.userId = u → e'.rank ≤ e.rank

/-- Every row is submitted, none before the one above it. `create` gives every row it stores its
    `submittedAt`. -/
def SubmittedInOrder (rows : List Submission) : Prop :=
  rows.Pairwise fun a b => ∃ s t, a.submittedAt = some s ∧ b.submittedAt = some t ∧ s ≤ t

/-- `s'` is the row `s`, not judged yet, with an accepted verdict. -/
structure Accepts (s s' : Submission) : Prop where
  unjudged : s.status = .pending ∨ s.status = .running
  accepted : s'.status = .accepted
  userId_eq : s'.userId = s.userId
  problemId_eq : s'.problemId = s.problemId
  submittedAt_eq : s'.submittedAt = s.submittedAt

theorem score_snoc (T : Date) (rows : List Submission) (s : Submission) (v : Id) :
    Icpc.NoWorse (score T (rows ++ [s]) v) (score T rows v) ∧
      (v ≠ s.userId → score T (rows ++ [s]) v = score T rows v) := by
  constructor
  · refine score_noWorse T (p := s.problemId) (fun q hq => ?_) ?_
    · rw [rowsOn_append, rowsOn_cons_of_ne fun h => hq h.2.symm]
      exact List.append_nil _
    · rw [rowsOn_append]
      exact Icpc.noWorse_append ..
  · intro hv
    refine score_congr T fun p => ?_
    rw [rowsOn_append, rowsOn_cons_of_ne fun h => hv h.1.symm]
    exact List.append_nil _

theorem moved_snoc (localeCompare : String → String → ℤ) (T : Date) (rows : List Submission) (s : Submission) :
    Moved s.userId (returnedEntries localeCompare T rows) (returnedEntries localeCompare T (rows ++ [s])) := by
  have hkey : ∀ v, v ≠ s.userId → pairKey (score T (rows ++ [s]) v) = pairKey (score T rows v) :=
    fun v hv => congrArg pairKey ((score_snoc T rows s v).2 hv)
  have hown : pairKey (score T (rows ++ [s]) s.userId) ≤ pairKey (score T rows s.userId) :=
    pairKey_le_of_noWorse (score_snoc T rows s s.userId).1
  constructor
  · intro v
    rw [(map_userId_returnedEntries localeCompare T rows).mem_iff,
      (map_userId_returnedEntries localeCompare T (rows ++ [s])).mem_iff]
    have hmem := Finset.ext_iff.mp (usersOf_snoc rows s) v
    rw [Finset.mem_insert, usersOf, usersOf, List.mem_toFinset, List.mem_toFinset] at hmem
    rw [hmem, or_comm]
  · intro e he e' he' hsame hne
    refine ⟨?_, ?_⟩
    · obtain ⟨g, hg, rfl⟩ := mem_returnedEntries.mp he
      obtain ⟨g', hg', rfl⟩ := mem_returnedEntries.mp he'
      exact sameStanding_of_problems T (problems_snoc T hg hg' hsame fun hu => absurd hu hne)
    · rw [rank_eq_rankAmong he, rank_eq_rankAmong he', ← hsame, usersOf_snoc]
      exact rankAmong_other hkey (fun _ => hown) hne
  · intro e he e' he' hu hu'
    have hmem : s.userId ∈ usersOf rows := by
      obtain ⟨g, hg, rfl⟩ := mem_returnedEntries.mp he
      rw [usersOf, List.mem_toFinset, ← hu]
      exact List.mem_map_of_mem hg
    rw [rank_eq_rankAmong he, rank_eq_rankAmong he', hu, hu', usersOf_snoc]
    exact rankAmong_improved hkey hmem hown

/-- A row that is accepted makes its user no worse and leaves the others. -/
theorem score_accepts (T : Date) {pre post : List Submission} {s s' : Submission} (h : Accepts s s')
    (horder : SubmittedInOrder (pre ++ s :: post)) (v : Id) :
    Icpc.NoWorse (score T (pre ++ s' :: post) v) (score T (pre ++ s :: post) v) ∧
      (v ≠ s.userId → score T (pre ++ s' :: post) v = score T (pre ++ s :: post) v) := by
  have hother : ∀ w q, ¬(s.userId = w ∧ s.problemId = q) →
      rowsOn (pre ++ s' :: post) w q = rowsOn (pre ++ s :: post) w q := by
    intro w q hwq
    rw [rowsOn_append, rowsOn_append, rowsOn_cons_of_ne hwq, rowsOn_cons_of_ne]
    rw [h.userId_eq, h.problemId_eq]
    exact hwq
  refine ⟨?_, fun hv => score_congr T fun q => hother v q fun hq => hv hq.1.symm⟩
  by_cases hv : s.userId = v
  · subst hv
    refine score_noWorse T (p := s.problemId) (fun q hq => hother _ q fun h => hq h.2.symm) ?_
    rw [rowsOn_append, rowsOn_append, rowsOn_cons_self h.userId_eq h.problemId_eq, rowsOn_cons_self rfl rfl]
    have hs : isAccepted s = false := by
      rcases h.unjudged with hp | hr
      · simp [isAccepted, hp]
      · simp [isAccepted, hr]
    refine Icpc.noWorse_accept _ _ _ hs (decide_eq_true h.accepted) fun t ht _ => ?_
    -- the later rows of this user were submitted no earlier
    have hpost := (List.pairwise_cons.mp (List.pairwise_append.mp horder).2.1).1
    obtain ⟨x, y, hx, hy, hle⟩ := hpost t (mem_rowsOn.mp ht).1
    unfold solveMinutes acceptedAt
    rw [h.submittedAt_eq, hx, hy]
    exact max_le_max le_rfl (Int.ediv_le_ediv (by decide) (Int.sub_le_sub_right hle T))
  · rw [score_congr T fun q => hother v q fun hq => hv hq.1]
    exact .inr ⟨rfl, le_rfl⟩

/-- **Main**: with one more row the entries of the other users keep their standing and fall by one
    rank at most, its user does not fall, and nobody's standing changes if its problem was solved;
    with one row accepted its user's pair is no worse and the other pairs are the same. -/
theorem computeStandings_moves (localeCompare : String → String → ℤ) (contestId : Id) (contest : Contest)
    (L : List Submission) (now now' : Date) :
    ∃ before, computeStandings localeCompare contestId (some contest) L now = .ok before ∧
      (∀ s, ∃ after, computeStandings localeCompare contestId (some contest) (L ++ [s]) now' = .ok after ∧
        Moved s.userId before.entries after.entries ∧
        (HasSolved L s.userId s.problemId → ∀ e ∈ before.entries, ∀ e' ∈ after.entries,
          e.userId = e'.userId → SameStanding e e')) ∧
      ∀ pre s post s', L = pre ++ s :: post → SubmittedInOrder L → Accepts s s' →
        ∃ after, computeStandings localeCompare contestId (some contest) (pre ++ s' :: post) now' = .ok after ∧
          Icpc.NoWorse (tally after.entries s.userId) (tally before.entries s.userId) ∧
          ∀ v, v ≠ s.userId → tally after.entries v = tally before.entries v := by
  refine ⟨_, computeStandings_eq localeCompare contestId contest L now, fun s => ?_, ?_⟩
  · refine ⟨_, computeStandings_eq localeCompare contestId contest (L ++ [s]) now', ?_, ?_⟩
    · exact moved_snoc localeCompare contest.startTime L s
    · intro hsolved e he e' he' hsame
      obtain ⟨g, hg, rfl⟩ := mem_returnedEntries.mp he
      obtain ⟨g', hg', rfl⟩ := mem_returnedEntries.mp he'
      exact sameStanding_of_problems _ (problems_snoc _ hg hg' hsame fun _ => hsolved)
  · rintro pre s post s' rfl horder h
    refine ⟨_, computeStandings_eq localeCompare contestId contest (pre ++ s' :: post) now', ?_⟩
    have hscore := score_accepts contest.startTime h horder
    simp only [← tally_returnedEntries localeCompare] at hscore
    exact ⟨(hscore s.userId).1, fun v hv => (hscore v).2 hv⟩

/-- A submission of `u1` at `t`. -/
def sentBy (status : SubmissionStatus) (t : Date) : Submission :=
  { wrongBy "u1" with status := status, submittedAt := some t }

/-- The first submission is accepted after the second one was: `u1` solved at minute 2 before, at
    minute 1 after. -/
theorem computeStandings_moves_accepted :
    ∃ before after,
      computeStandings compareCodePoints "c1" (some spring) [sentBy .pending 60000, sentBy .accepted 120000] 0 =
        .ok before ∧
      computeStandings compareCodePoints "c1" (some spring) [sentBy .accepted 60000, sentBy .accepted 120000] 0 =
        .ok after ∧
      tally before.entries "u1" = (1, 2) ∧ tally after.entries "u1" = (1, 1) ∧
      Icpc.NoWorse (tally after.entries "u1") (tally before.entries "u1") := by
  obtain ⟨before, hbefore, _, haccept⟩ := computeStandings_moves compareCodePoints "c1" spring
    [sentBy .pending 60000, sentBy .accepted 120000] 0 0
  have horder : SubmittedInOrder [sentBy .pending 60000, sentBy .accepted 120000] := by
    simp [SubmittedInOrder, sentBy]
  obtain ⟨after, hafter, hnoWorse, _⟩ := haccept [] (sentBy .pending 60000) [sentBy .accepted 120000]
    (sentBy .accepted 60000) rfl horder ⟨.inl rfl, rfl, rfl, rfl, rfl⟩
  refine ⟨before, after, hbefore, hafter, ?_, ?_, hnoWorse⟩
  · cases hbefore
    decide
  · cases hafter
    decide

end CodeWeaknesses.Leaderboard
