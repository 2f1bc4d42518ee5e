import OpenDirectory.AdmxPlaces
import OpenDirectory.AgentDuties
import OpenDirectory.AgentReleases
import OpenDirectory.AgentReport
import OpenDirectory.AlertNotices
import OpenDirectory.AlertWindows
import OpenDirectory.Applying
import OpenDirectory.BulkChanges
import OpenDirectory.CertificateIssue
import OpenDirectory.CheckedConfigs
import OpenDirectory.CodeTexts
import OpenDirectory.ConsolePair
import OpenDirectory.CustomPackages
import OpenDirectory.DomainExport
import OpenDirectory.Enrolling
import OpenDirectory.ExternalNames
import OpenDirectory.FactorAnswers
import OpenDirectory.FactorRetirement
import OpenDirectory.FirewallRules
import OpenDirectory.GroupQueries
import OpenDirectory.Guessing
import OpenDirectory.Hostnames
import OpenDirectory.IniEdits
import OpenDirectory.Interactive
import OpenDirectory.JournalPasses
import OpenDirectory.LdapPool
import OpenDirectory.Leadership
import OpenDirectory.LinkRuns
import OpenDirectory.LocalGrants
import OpenDirectory.MachineRename
import OpenDirectory.ManagerKept
import OpenDirectory.ObjectNames
import OpenDirectory.PhoneEnrolment
import OpenDirectory.PolicyRollback
import OpenDirectory.ProfileDisks
import OpenDirectory.ProfileShares
import OpenDirectory.RadiusRules
import OpenDirectory.Refreshing
import OpenDirectory.ScopeEdits
import OpenDirectory.ScreenSharing
import OpenDirectory.SessionHooks
import OpenDirectory.SessionReport
import OpenDirectory.SharePaths
import OpenDirectory.ShareSections
import OpenDirectory.SignInApproval
import OpenDirectory.Sites
import OpenDirectory.SoftwareControl
import OpenDirectory.TaskSecrets
import OpenDirectory.TunnelConfig
import OpenDirectory.VaultRounds
import OpenDirectory.WholeImports
