import CodeWeaknesses.Graphql.Standings

/-!
# The entries of `contestStandings`

The definition of the standings: one entry a user, one breakdown a problem, with the
earliest row of maximal score, and the order of the entries.

Results:
* `best_eq_earliestBest`: on ascending rows the reducer returns the earliest row of maximal score.
* `foldl_addProblem`: what the problem loop has accumulated.
* `compareEntries_totalPreorder`: the comparator is consistent, so a strict weak order.
* `contestStandings_spec`: **`contestStandings` returns the defined standings**.
-/

namespace CodeWeaknesses.Graphql

open Lib Submissions

/-! ## Definition of an entry -/

/-- The earliest row of maximal score. -/
def earliestBest (subs : List Submission) : Option Submission :=
  subs.find? fun s => subs.all fun r => r.score ≤ s.score

/-- The rows on problem `p`. -/
def attemptsOn (subs : List Submission) (p : Problem) : List Submission :=
  subs.filter fun s => s.problemId = p.id

/-- The fields of a row that a breakdown shows. -/
def toBestSubmission (s : Submission) : BestSubmissionType :=
  { id := s.id, status := s.status, score := s.score, language := s.language,
    submittedAt := s.submittedAt, executionTime := s.executionTime }

/-- The breakdown of `p` for a user with the rows `subs`. -/
def breakdownOf (subs : List Submission) (p : Problem) : ProblemBreakdownType :=
  { problemId := p.id, problemTitle := p.title
    bestScore := ((earliestBest (attemptsOn subs p)).map fun s => s.score).getD 0
    attempts := (attemptsOn subs p).length
    bestSubmission := (earliestBest (attemptsOn subs p)).map toBestSubmission }

/-- The best row on `p`, if it is accepted. -/
def acceptedBest (subs : List Submission) (p : Problem) : Option Submission :=
  (earliestBest (attemptsOn subs p)).filter fun s => s.status = .accepted

/-- `completedAt ?? submittedAt` of the accepted best rows. -/
def acceptedTimes (subs : List Submission) (problems : List Problem) : List Date :=
  problems.filterMap fun p => (acceptedBest subs p).bind fun s => s.completedAt.or s.submittedAt

/-- `e` is the entry of a user with the rows `subs`, whatever its rank. -/
structure IsEntry (problems : List Problem) (subs : List Submission) (e : LeaderboardEntryType) : Prop where
  problemBreakdowns_eq : e.problemBreakdowns = problems.map (breakdownOf subs)
  totalScore_eq : e.totalScore = (e.problemBreakdowns.map fun b => b.bestScore).sum
  problemsSolved_eq : e.problemsSolved =
    e.problemBreakdowns.countP fun b => b.bestSubmission.any fun s => s.status = .accepted
  lastAcceptedAt_eq : e.lastAcceptedAt = (acceptedTimes subs problems).max?

/-! ## The reducer -/

/-- The reducer returns the earliest row of maximal score. -/
theorem best_eq_earliestBest {subs : List Submission} (hasc : Ascending subs) : best subs = earliestBest subs := by
  cases hbest : best subs with
  | none =>
    rw [best_eq_none_iff.mp hbest]
    rfl
  | some b =>
    obtain ⟨pre, post, rfl, hpre, hpost⟩ := best_spec hasc hbest
    have hmax : ∀ r ∈ pre ++ b :: post, r.score ≤ b.score := by
      intro r hr
      rcases List.mem_append.mp hr with hr | hr
      · exact (hpre r hr).le
      · rcases List.mem_cons.mp hr with rfl | hr
        · exact le_rfl
        · exact hpost r hr
    symm
    refine List.find?_eq_some_iff_append.mpr ⟨?_, pre, post, rfl, fun s hs => ?_⟩
    · exact List.all_eq_true.mpr fun r hr => decide_eq_true (hmax r hr)
    · -- a row before `b` does not beat `b`
      have hlt := hpre s hs
      rw [Bool.not_eq_true', List.all_eq_false]
      exact ⟨b, by simp, by simpa using hlt⟩

theorem Ascending.attemptsOn {subs : List Submission} (hasc : Ascending subs) (p : Problem) :
    Ascending (attemptsOn subs p) :=
  hasc.filter _

/-! ## The problem loop -/

@[simp] theorem laterOf_none (last : Option Date) : laterOf last none = last := by
  cases last <;> rfl

/-- One round of the problem loop. -/
theorem addProblem_eq {subs : List Submission} (hasc : Ascending subs) (t : EntryTotals) (p : Problem) :
    addProblem subs t p =
      { totalScore := t.totalScore + (breakdownOf subs p).bestScore
        problemsSolved := t.problemsSolved + if (acceptedBest subs p).isSome then 1 else 0
        lastAcceptedAt := laterOf t.lastAcceptedAt
          ((acceptedBest subs p).bind fun s => s.completedAt.or s.submittedAt)
        problemBreakdowns := t.problemBreakdowns ++ [breakdownOf subs p] } := by
  cases h : earliestBest (attemptsOn subs p) with
  | none =>
    have hbest : best (subs.filter fun s => s.problemId = p.id) = none :=
      (best_eq_earliestBest (hasc.attemptsOn p)).trans h
    have hlength : (attemptsOn subs p).length = 0 := List.length_eq_zero_iff.mpr (best_eq_none_iff.mp hbest)
    simp only [addProblem, hbest, acceptedBest, breakdownOf, h, hlength]
    simp
  | some b =>
    have hbest : best (subs.filter fun s => s.problemId = p.id) = some b :=
      (best_eq_earliestBest (hasc.attemptsOn p)).trans h
    simp only [addProblem, hbest, acceptedBest, breakdownOf, h]
    by_cases hb : b.status = .accepted
    · simp [hb, toBestSubmission, attemptsOn, Option.filter]
    · simp [hb, toBestSubmission, attemptsOn, Option.filter]

/-- The later of two times. -/
theorem laterOf_some (last t : Date) : laterOf (some last) (some t) = some (max last t) := by
  show (if t > last then some t else some last) = _
  split_ifs with hlt
  · rw [max_eq_right hlt.le]
  · rw [max_eq_left (not_lt.mp hlt)]

/-- The loop keeps the latest of the times seen. -/
theorem foldl_laterOf {α : Type} (time : α → Option Date) (l : List α) : ∀ seen : List Date,
    l.foldl (fun last a => laterOf last (time a)) seen.max? = (seen ++ l.filterMap time).max? := by
  induction l with
  | nil =>
    intro seen
    rw [List.filterMap_nil, List.append_nil]
    rfl
  | cons a l ih =>
    intro seen
    rw [List.foldl_cons, List.filterMap_cons]
    cases ha : time a with
    | none => exact ih seen
    | some t =>
      have hstep : laterOf seen.max? (some t) = (seen ++ [t]).max? := by
        cases seen with
        | nil => rfl
        | cons s seen =>
          rw [List.cons_append, List.max?_cons', List.max?_cons', List.foldl_append]
          exact laterOf_some _ t
      rw [hstep, ih, List.append_assoc]
      rfl

/-- What the problem loop has accumulated. -/
theorem foldl_addProblem {subs : List Submission} (hasc : Ascending subs) (problems : List Problem) :
    ∀ t : EntryTotals, problems.foldl (addProblem subs) t =
      { totalScore := t.totalScore + (problems.map fun p => (breakdownOf subs p).bestScore).sum
        problemsSolved := t.problemsSolved + problems.countP fun p => (acceptedBest subs p).isSome
        lastAcceptedAt := problems.foldl (fun last p => laterOf last
          ((acceptedBest subs p).bind fun s => s.completedAt.or s.submittedAt)) t.lastAcceptedAt
        problemBreakdowns := t.problemBreakdowns ++ problems.map (breakdownOf subs) } := by
  induction problems with
  | nil => simp
  | cons p problems ih =>
    intro t
    rw [List.foldl_cons, ih, addProblem_eq hasc, List.countP_cons]
    simp only [List.map_cons, List.sum_cons, List.foldl_cons, List.append_assoc, List.singleton_append,
      add_assoc, EntryTotals.mk.injEq, true_and, and_true]
    omega

/-- A breakdown shows an accepted row iff the best row is accepted. -/
theorem breakdownOf_accepted (subs : List Submission) (p : Problem) :
    ((breakdownOf subs p).bestSubmission.any fun s => s.status = .accepted) = (acceptedBest subs p).isSome := by
  unfold breakdownOf acceptedBest
  cases earliestBest (attemptsOn subs p) with
  | none => rfl
  | some b => by_cases hb : b.status = .accepted <;> simp [hb, toBestSubmission, Option.filter]

theorem buildEntry_isEntry {problems : List Problem} {g : Id × (User × List Submission)}
    (hasc : Ascending g.2.2) : IsEntry problems g.2.2 (buildEntry problems g) := by
  have hloop := foldl_addProblem hasc problems ⟨0, 0, none, []⟩
  have hbreakdowns : (buildEntry problems g).problemBreakdowns = problems.map (breakdownOf g.2.2) :=
    congrArg EntryTotals.problemBreakdowns hloop
  constructor
  · exact hbreakdowns
  · rw [hbreakdowns, List.map_map]
    exact (congrArg EntryTotals.totalScore hloop).trans (zero_add _)
  · rw [hbreakdowns, List.countP_map]
    refine (congrArg EntryTotals.problemsSolved hloop).trans ((zero_add _).trans ?_)
    refine List.countP_congr fun p _ => ?_
    rw [Function.comp_apply, breakdownOf_accepted]
  · exact (congrArg EntryTotals.lastAcceptedAt hloop).trans (foldl_laterOf _ problems [])

/-! ## The order of the entries -/

/-- `a` is not later than `b`; a missing time is later than any other. -/
def NotLater (a b : Option Date) : Prop := ∀ t ∈ b, ∃ s ∈ a, s ≤ t

/-- More solved problems first, then the higher score, then the earlier last accepted time. -/
def Precedes (a b : LeaderboardEntryType) : Prop :=
  b.problemsSolved < a.problemsSolved ∨ a.problemsSolved = b.problemsSolved ∧
    (b.totalScore < a.totalScore ∨ a.totalScore = b.totalScore ∧ NotLater a.lastAcceptedAt b.lastAcceptedAt)

@[simp] theorem notLater_none (a : Option Date) : NotLater a none := by
  intro t ht
  cases ht

@[simp] theorem not_notLater_some (t : Date) : ¬ NotLater none (some t) := by
  intro h
  obtain ⟨s, hs, _⟩ := h t rfl
  cases hs

@[simp] theorem notLater_some_iff {s t : ℤ} : NotLater (some s) (some t) ↔ s ≤ t := by
  simp [NotLater]

theorem compareEntries_le_iff {a b : LeaderboardEntryType} : compareEntries a b ≤ 0 ↔ Precedes a b := by
  unfold compareEntries Precedes
  cases a.lastAcceptedAt with
  | none =>
    cases b.lastAcceptedAt with
    | none =>
      simp only [notLater_none, and_true]
      split_ifs <;> omega
    | some t =>
      simp only [not_notLater_some, and_false, or_false]
      split_ifs <;> omega
  | some s =>
    cases b.lastAcceptedAt with
    | none =>
      simp only [notLater_none, and_true]
      split_ifs <;> omega
    | some t =>
      simp only [notLater_some_iff]
      split_ifs <;> omega

/-- The comparator answers the other way round when its arguments are swapped. -/
theorem compareEntries_swap (a b : LeaderboardEntryType) : compareEntries a b ≤ 0 ↔ 0 ≤ compareEntries b a := by
  unfold compareEntries
  cases a.lastAcceptedAt with
  | none => cases b.lastAcceptedAt <;> dsimp only <;> split_ifs <;> omega
  | some s => cases b.lastAcceptedAt <;> dsimp only <;> split_ifs <;> omega

theorem NotLater.trans {a b c : Option Date} (hab : NotLater a b) (hbc : NotLater b c) : NotLater a c := by
  intro t ht
  obtain ⟨s, hs, hst⟩ := hbc t ht
  obtain ⟨r, hr, hrs⟩ := hab s hs
  exact ⟨r, hr, hrs.trans hst⟩

theorem Precedes.trans {a b c : LeaderboardEntryType} (hab : Precedes a b) (hbc : Precedes b c) : Precedes a c := by
  have htimes := NotLater.trans (a := a.lastAcceptedAt) (b := b.lastAcceptedAt) (c := c.lastAcceptedAt)
  unfold Precedes at *
  grind

theorem compareEntries_totalPreorder : TotalPreorder compareEntries where
  swap := compareEntries_swap
  trans a b c hab hbc := by
    rw [compareEntries_le_iff] at *
    exact hab.trans hbc

/-! ## Main theorem -/

/-- `entries` are the standings of the submissions `rows` on the contest's `problems`. -/
structure ContestStandings (problems : List Problem) (rows : List Submission)
    (entries : List LeaderboardEntryType) : Prop where
  users_nodup : (entries.map fun e => e.userId).Nodup
  users_iff : ∀ u, u ∈ entries.map (fun e => e.userId) ↔ ∃ s ∈ rows, s.userId = u ∧ s.user.isSome = true
  entry : ∀ e ∈ entries, IsEntry problems (loadedRows rows e.userId) e
  sorted : entries.Pairwise Precedes
  ranks : entries.map (fun e => e.rank) = List.range' 1 entries.length

theorem loadedRows_ne_nil_iff {rows : List Submission} {u : Id} :
    loadedRows rows u ≠ [] ↔ ∃ s ∈ rows, s.userId = u ∧ s.user.isSome = true := by
  constructor
  · intro hne
    obtain ⟨s, hs⟩ := List.exists_mem_of_ne_nil _ hne
    unfold loadedRows at hs
    simp only [List.mem_filter, decide_eq_true_eq] at hs
    exact ⟨s, hs.1.1, hs.2, hs.1.2⟩
  · rintro ⟨s, hs, hu, huser⟩
    refine List.ne_nil_of_mem (a := s) ?_
    unfold loadedRows
    simp only [List.mem_filter, decide_eq_true_eq]
    exact ⟨⟨hs, huser⟩, hu⟩

/-- An entry without its rank. -/
def unranked (e : LeaderboardEntryType) : LeaderboardEntryType := { e with rank := 0 }

/-- The rank loop changes nothing but the ranks. -/
theorem map_unranked_assignRanks (es : List LeaderboardEntryType) :
    (assignRanks es).map unranked = es.map unranked := by
  refine List.ext_getElem? fun i => ?_
  rw [List.getElem?_map, List.getElem?_map, assignRanks, List.getElem?_mapIdx, Option.map_map]
  rfl

/-- The ranks are `1, 2, …`. -/
theorem map_rank_assignRanks (es : List LeaderboardEntryType) :
    (assignRanks es).map (fun e => e.rank) = List.range' 1 (assignRanks es).length := by
  refine List.ext_getElem? fun i => ?_
  rw [List.getElem?_map, assignRanks, List.getElem?_mapIdx, Option.map_map, List.length_mapIdx]
  by_cases hi : i < es.length
  · rw [List.getElem?_eq_getElem hi, List.getElem?_range' hi, Nat.one_mul, Nat.add_comm]
    rfl
  · rw [List.getElem?_eq_none (by omega), List.getElem?_eq_none (by simp; omega)]
    rfl

theorem IsEntry.of_unranked {problems : List Problem} {subs : List Submission} {e e' : LeaderboardEntryType}
    (h : IsEntry problems subs e) (heq : unranked e' = unranked e) : IsEntry problems subs e' := by
  cases e
  cases e'
  cases heq
  exact ⟨h.1, h.2, h.3, h.4⟩

/-- **Main**: on rows in ascending `submittedAt` order `contestStandings` returns the standings of the
    rows. The comparator orders strictly and weakly, also where both times are missing. -/
theorem contestStandings_spec (problems : List Problem) (rows : List Submission) (hasc : Ascending rows) :
    (∃ entries, contestStandings (some problems) rows = .ok entries ∧ ContestStandings problems rows entries) ∧
      IsStrictWeakOrder LeaderboardEntryType fun a b => compareEntries a b < 0 := by
  refine ⟨⟨_, rfl, ?_⟩, compareEntries_totalPreorder.isStrictWeakOrder⟩
  show ContestStandings problems rows
    (assignRanks (sortBy compareEntries ((byUser rows).entries.map (buildEntry problems))))
  set es := sortBy compareEntries ((byUser rows).entries.map (buildEntry problems)) with hes
  have hsame := map_unranked_assignRanks es
  -- what does not read the ranks is as before the rank loop
  have hids : (assignRanks es).map (fun e => e.userId) = es.map fun e => e.userId := by
    have h := congrArg (List.map fun e => e.userId) hsame
    rwa [List.map_map, List.map_map] at h
  have hperm : ((assignRanks es).map fun e => e.userId).Perm (byUser rows).keys := by
    rw [hids]
    refine ((sortBy_perm compareEntries _).map _).trans (List.Perm.of_eq ?_)
    rw [List.map_map]
    rfl
  constructor
  · exact hperm.nodup_iff.mpr (byUser rows).nodup
  · intro u
    rw [hperm.mem_iff, mem_keys_byUser, loadedRows_ne_nil_iff]
  · intro e he
    have hmem : unranked e ∈ es.map unranked := hsame ▸ List.mem_map_of_mem he
    obtain ⟨e', he', heq⟩ := List.mem_map.mp hmem
    obtain ⟨g, hg, rfl⟩ := List.mem_map.mp (mem_sortBy.mp he')
    have huser : e.userId = g.1 := congrArg LeaderboardEntryType.userId heq.symm
    have hrows := (mem_byUser hg).1
    have hsubs : Ascending g.2.2 := by
      rw [hrows]
      exact (hasc.filter _).filter _
    rw [huser, ← hrows]
    exact (buildEntry_isEntry hsubs).of_unranked heq.symm
  · have hsorted : (es.map unranked).Pairwise Precedes :=
      List.pairwise_map.mpr ((compareEntries_totalPreorder.sortBy_pairwise _).imp compareEntries_le_iff.mp)
    rw [← hsame, List.pairwise_map] at hsorted
    exact hsorted
  · exact map_rank_assignRanks es

/-- A row of `u` with `score`, submitted at `t`. -/
def rowBy (u : Id) (status : SubmissionStatus) (score : ℤ) (t : Date) : Submission where
  id := u
  code := "print(42)"
  language := .python
  status := status
  userId := u
  problemId := "p1"
  contestId := "c1"
  submittedAt := some t
  startedAt := none
  completedAt := none
  score := score
  executionTime := none
  memoryUsed := none
  user := some ⟨u, u, "", .user⟩
  problem := none
  testResults := none

/-- `u2` and `u3` have solved nothing and stay in their order behind `u1`, whose earlier row of
    score 100 is not accepted but stands for the problem. -/
theorem contestStandings_spec_unsolved : ∃ entries,
    contestStandings (some [⟨"p1", "Sum", "Add them up.", 1000, some "c1"⟩])
      [rowBy "u2" .wrong 50 1, rowBy "u1" .wrong 100 2, rowBy "u3" .wrong 50 3, rowBy "u1" .accepted 100 4] =
        .ok entries ∧
    entries.map (fun e => (e.rank, e.userId, e.totalScore, e.problemsSolved, e.lastAcceptedAt)) =
      [(1, "u1", 100, 0, none), (2, "u2", 50, 0, none), (3, "u3", 50, 0, none)] ∧
    entries.Pairwise Precedes := by
  obtain ⟨⟨entries, hentries, hspec⟩, _⟩ := contestStandings_spec [⟨"p1", "Sum", "Add them up.", 1000, some "c1"⟩]
    [rowBy "u2" .wrong 50 1, rowBy "u1" .wrong 100 2, rowBy "u3" .wrong 50 3, rowBy "u1" .accepted 100 4]
    (by simp [Ascending, rowBy])
  refine ⟨entries, hentries, ?_, hspec.sorted⟩
  cases hentries
  decide

end CodeWeaknesses.Graphql
