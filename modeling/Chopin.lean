import Chopin.Answers.DeliveryRuns
import Chopin.Channels.Reservations
import Chopin.Chat.InitiativeRuns
import Chopin.Chat.ReplyPolicyRuns
import Chopin.Chat.StoredReferences
import Chopin.Client.AskRuns
import Chopin.Conversation.JobRuns
import Chopin.Dialect.Titles
import Chopin.Drafts.SpliceFacts
import Chopin.Editing.Alignments
import Chopin.Editing.ChangeFacts
import Chopin.Editing.Projections
import Chopin.Editing.RecordBlocks
import Chopin.Editing.Restorations
import Chopin.Editor.ProviderRuns
import Chopin.Experiments.ConnectionRuns
import Chopin.Experiments.PairingRuns
import Chopin.Investigations.Selections
import Chopin.Investigations.ServiceRuns
import Chopin.Jobs.RunnerRuns
import Chopin.Mdx.Soundness
import Chopin.Mdx.WrittenQuestions
import Chopin.Planners.AttachmentRuns
import Chopin.Protocol.DocumentPaths
import Chopin.Questions.Extensions
import Chopin.Questions.Revisions
import Chopin.Reading.ReadRuns
import Chopin.Remote.ReplyRuns
import Chopin.Remote.StopRuns
import Chopin.Remote.TurnRuns
import Chopin.Room.AnchorFacts
import Chopin.Room.ReconcileFacts
import Chopin.Room.Seeking
import Chopin.Runs.Endings
import Chopin.Runs.SplitReports
import Chopin.Runs.Stages
import Chopin.Runs.StoredStages
import Chopin.Storage.JobRuns
import Chopin.Tasks.Claiming
import Chopin.Tasks.Dependencies
import Chopin.Tasks.LandedRebuilds
import Chopin.Tasks.LifecycleRuns
import Chopin.Tasks.LiveRecords
import Chopin.Tasks.LiveSync
import Chopin.Tasks.MergedRequests
import Chopin.Tasks.ReplayRuns
import Chopin.Tasks.StoredPaths
import Chopin.Threads.CorrectionRuns
import Chopin.Threads.SupportRuns
import Chopin.Wireframes.RoundTrips
