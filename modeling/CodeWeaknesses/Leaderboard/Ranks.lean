import CodeWeaknesses.Leaderboard.Icpc

/-!
# Ranks of the leaderboard

Results:
* `compareEntries_le_iff`: the comparator orders by solved problems, penalty and name.
* `computeStandings_ranks`: **the entries are sorted, each ranked by the number of better
  ones, and two share a rank iff they tie on solved problems and penalty.**
-/

namespace CodeWeaknesses.Leaderboard

open Lib

/-! ## The order of the entries -/

/-- `a` may stand before `b`: more solved, or as many and less penalty, or both alike and a
    name that is not greater. -/
def Precedes (localeCompare : String → String → ℤ) (a b : LeaderboardEntry) : Prop :=
  b.solved < a.solved ∨ a.solved = b.solved ∧
    (a.totalPenalty < b.totalPenalty ∨ a.totalPenalty = b.totalPenalty ∧ localeCompare a.userName b.userName ≤ 0)

theorem compareEntries_le_iff {localeCompare : String → String → ℤ} {a b : LeaderboardEntry} :
    compareEntries localeCompare a b ≤ 0 ↔ Precedes localeCompare a b := by
  unfold compareEntries Precedes
  split_ifs with hsolved hpenalty <;> omega

/-- The comparator is consistent if the comparison of names is. -/
theorem compareEntries_totalPreorder {localeCompare : String → String → ℤ} (h : TotalPreorder localeCompare) :
    TotalPreorder (compareEntries localeCompare) where
  swap a b := by
    have hnames := h.swap a.userName b.userName
    unfold compareEntries
    split_ifs <;> omega
  trans a b c hab hbc := by
    rw [compareEntries_le_iff] at *
    have hnames := h.trans a.userName b.userName c.userName
    unfold Precedes at *
    omega

/-! ## The ranks -/

/-- The entry as it was built, before the rank loop. -/
def unranked (e : LeaderboardEntry) : LeaderboardEntry := { e with rank := 0 }

theorem unranked_withRank {T : Date} {rows : List Submission} {es : List LeaderboardEntry} {e : LeaderboardEntry}
    (he : e ∈ buildEntries T rows) : unranked (withRank es e) = e := by
  obtain ⟨g, _, rfl⟩ := mem_buildEntries.mp he
  rfl

/-- Two entries have as many better ones iff they tie. -/
theorem rank_eq_iff {es : List LeaderboardEntry} {a b : LeaderboardEntry} (ha : a ∈ es) (hb : b ∈ es) :
    (withRank es a).rank = (withRank es b).rank ↔ a.solved = b.solved ∧ a.totalPenalty = b.totalPenalty := by
  have hcount : ∀ e, es.countP (fun e' => Better e' e) = (es.map standingKey).countP (· < standingKey e) := by
    intro e
    rw [List.countP_map]
    refine List.countP_congr fun e' _ => ?_
    simp only [Function.comp_apply, standingKey_lt_iff]
  show 1 + es.countP (fun e' => Better e' a) = 1 + es.countP (fun e' => Better e' b) ↔ _
  rw [Nat.add_left_cancel_iff, hcount, hcount, ← standingKey_eq_iff]
  exact countP_lt_inj (List.mem_map_of_mem ha) (List.mem_map_of_mem hb)

/-- **Main**: the returned entries are the built ones, sorted, each with one plus the number of
    better entries as its rank; two entries share a rank iff they tie. -/
theorem computeStandings_ranks {localeCompare : String → String → ℤ} (hlocale : TotalPreorder localeCompare)
    (contestId : Id) (contest : Contest) (submissions : List Submission) (now : Date) :
    ∃ payload, computeStandings localeCompare contestId (some contest) submissions now = .ok payload ∧
      (payload.entries.map unranked).Perm (buildEntries contest.startTime submissions) ∧
      payload.entries.Pairwise (Precedes localeCompare) ∧
      (∀ e ∈ payload.entries, e.rank = 1 + payload.entries.countP fun e' => Better e' e) ∧
      ∀ e ∈ payload.entries, ∀ e' ∈ payload.entries,
        e.rank = e'.rank ↔ e.solved = e'.solved ∧ e.totalPenalty = e'.totalPenalty := by
  refine ⟨_, computeStandings_eq localeCompare contestId contest submissions now, ?_⟩
  dsimp only
  set es := buildEntries contest.startTime submissions with hes
  have hperm : (sortBy (compareEntries localeCompare) es).Perm es := sortBy_perm _ es
  refine ⟨?_, ?_, ?_, ?_⟩
  · rw [List.map_map]
    refine (List.Perm.map _ hperm).trans (List.Perm.of_eq ?_)
    have hsame : es.map (unranked ∘ withRank es) = es.map id :=
      List.map_congr_left fun e he => unranked_withRank (hes ▸ he)
    rw [hsame, List.map_id]
  · rw [List.pairwise_map]
    refine ((compareEntries_totalPreorder hlocale).sortBy_pairwise es).imp fun {a b} hab => ?_
    exact compareEntries_le_iff.mp hab
  · intro e he
    obtain ⟨e₀, _, rfl⟩ := List.mem_map.mp he
    rw [List.countP_map, hperm.countP_eq]
    rfl
  · intro e he e' he'
    obtain ⟨a, ha, rfl⟩ := List.mem_map.mp he
    obtain ⟨b, hb, rfl⟩ := List.mem_map.mp he'
    exact rank_eq_iff (mem_sortBy.mp ha) (mem_sortBy.mp hb)

/-- The comparison of the texts by code points. -/
def compareCodePoints (a b : String) : ℤ := if a < b then -1 else if b < a then 1 else 0

theorem compareCodePoints_totalPreorder : TotalPreorder compareCodePoints := by
  have hle : ∀ a b, compareCodePoints a b ≤ 0 ↔ a ≤ b := by
    intro a b
    unfold compareCodePoints
    split_ifs with hlt hgt
    · exact ⟨fun _ => hlt.le, fun _ => by decide⟩
    · exact ⟨fun h => absurd h (by decide), fun h => absurd hgt (not_lt.mpr h)⟩
    · exact ⟨fun _ => not_lt.mp hgt, fun _ => le_rfl⟩
  constructor
  · intro a b
    rw [hle]
    unfold compareCodePoints
    split_ifs with hlt hgt
    · exact ⟨fun h => absurd hlt (not_lt.mpr h), fun h => absurd h (by decide)⟩
    · exact ⟨fun _ => by decide, fun _ => hgt.le⟩
    · exact ⟨fun _ => le_rfl, fun _ => not_lt.mp hlt⟩
  · intro a b c hab hbc
    rw [hle] at *
    exact hab.trans hbc

/-- A wrong answer. -/
def wrongBy (userId : Id) : Submission where
  id := userId
  code := "x"
  language := .python
  status := .wrong
  userId := userId
  problemId := "p1"
  contestId := "c1"
  submittedAt := some 60000
  startedAt := none
  completedAt := none
  score := 0
  executionTime := none
  memoryUsed := none
  user := none
  problem := none
  testResults := none

def spring : Contest :=
  { id := "c1", title := "Spring 2026", startTime := 0, endTime := 3600000, finishedAt := none,
    deletedAt := none }

/-- Nobody has solved anything, so both stand on rank 1. -/
theorem computeStandings_ranks_tied :
    ∃ payload, computeStandings compareCodePoints "c1" (some spring) [wrongBy "u2", wrongBy "u1"] 0 = .ok payload ∧
      payload.entries.map (fun e => (e.userId, e.rank)) = [("u1", 1), ("u2", 1)] ∧
      payload.entries.Pairwise (Precedes compareCodePoints) := by
  obtain ⟨payload, hpayload, _, hsorted, _⟩ := computeStandings_ranks compareCodePoints_totalPreorder "c1" spring
    [wrongBy "u2", wrongBy "u1"] 0
  refine ⟨payload, hpayload, ?_, hsorted⟩
  cases hpayload
  decide

end CodeWeaknesses.Leaderboard
