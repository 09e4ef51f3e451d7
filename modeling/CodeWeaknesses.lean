import CodeWeaknesses.Auth.Passwords
import CodeWeaknesses.Contest.Queue
import CodeWeaknesses.Contest.Trash
import CodeWeaknesses.Graphql.Agreement
import CodeWeaknesses.Graphql.Entries
import CodeWeaknesses.Leaderboard.Attended
import CodeWeaknesses.Leaderboard.Final
import CodeWeaknesses.Leaderboard.Icpc
import CodeWeaknesses.Problem.Trash
import CodeWeaknesses.Sse.Delivery
import CodeWeaknesses.Sse.LateJoin
import CodeWeaknesses.Sse.RefCounts
import CodeWeaknesses.Sse.Replay
import CodeWeaknesses.Sse.Roles
import CodeWeaknesses.Submissions.Attempts
import CodeWeaknesses.Submissions.Comparison
import CodeWeaknesses.Submissions.Containers
import CodeWeaknesses.Submissions.HiddenTexts
import CodeWeaknesses.Submissions.Limits
import CodeWeaknesses.Submissions.Scores
import CodeWeaknesses.Submissions.Streams
import CodeWeaknesses.Webhooks.Audit
import CodeWeaknesses.Webhooks.Fanout
import CodeWeaknesses.Webhooks.Informed
import CodeWeaknesses.Webhooks.Snapshot
import CodeWeaknesses.Webhooks.Winner
