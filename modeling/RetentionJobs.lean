import RetentionJobs.Config.Load
import RetentionJobs.Cron.Schedule
import RetentionJobs.Gateway.Start
import RetentionJobs.Job.Decode
import RetentionJobs.Main
import RetentionJobs.Outbox.Store
import RetentionJobs.Proofs.Cron.Acceptance
import RetentionJobs.Proofs.Job.Quoting
import RetentionJobs.Proofs.Job.RegisteredName
import RetentionJobs.Proofs.Sql.Numbers
import RetentionJobs.Proofs.Job.Numbers
import RetentionJobs.Proofs.Job.Effective
import RetentionJobs.Proofs.Job.Floors
import RetentionJobs.Proofs.Gateway.Creation
import RetentionJobs.Proofs.Gateway.Interleaving
import RetentionJobs.Proofs.Gateway.Acknowledged
import RetentionJobs.Proofs.Job.Refusal
import RetentionJobs.Proofs.Gateway.Agreement
import RetentionJobs.Proofs.Cron.Formatting
import RetentionJobs.Proofs.Text.FixedWidth
import RetentionJobs.Proofs.Time.Date
import RetentionJobs.Proofs.Time.Instant
import RetentionJobs.Proofs.Outbox.Opening
import RetentionJobs.Proofs.Outbox.Runs
import RetentionJobs.Proofs.Outbox.Places
import RetentionJobs.Proofs.Toml.Strings
import RetentionJobs.Proofs.Toml.Values
import RetentionJobs.Proofs.Toml.Documents
import RetentionJobs.Proofs.Config.RoundTrip
import RetentionJobs.Proofs.Job.Target
import RetentionJobs.Proofs.Job.Verdict
import RetentionJobs.Proofs.Cron.Spelled
import RetentionJobs.Proofs.Cron.FieldTexts
import RetentionJobs.Proofs.Cron.WeekdayRules
import RetentionJobs.Proofs.Cron.WeekdayAcceptance
import RetentionJobs.Proofs.Job.RequestText
import RetentionJobs.Proofs.Text.Separators
import RetentionJobs.Proofs.Job.Conjunction
import RetentionJobs.Proofs.Cron.Spacing
import RetentionJobs.Proofs.Job.Times
import RetentionJobs.Proofs.Job.Adjustments
import RetentionJobs.Proofs.Cron.Seconds
import RetentionJobs.Proofs.Config.Overrides
import RetentionJobs.Proofs.Config.Starts
import RetentionJobs.Proofs.Config.Defaults
import RetentionJobs.Proofs.Outbox.Listing
import RetentionJobs.Proofs.Gateway.Sharing
import RetentionJobs.Proofs.Gateway.Loopback
import RetentionJobs.Proofs.Outbox.Reopening
import RetentionJobs.Proofs.Outbox.WorkingDirectory
import RetentionJobs.Proofs.Cron.Signs
import RetentionJobs.Proofs.Job.Characters
import RetentionJobs.Proofs.Cron.WeekdayMeaning
