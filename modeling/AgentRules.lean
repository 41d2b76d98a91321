import AgentRules.Main
import AgentRules.Proofs.Budget
import AgentRules.Proofs.Contradictions
import AgentRules.Proofs.Header.GlobLists
import AgentRules.Proofs.Header.Scan
import AgentRules.Proofs.Header.TornLists
import AgentRules.Proofs.Header.Unchanged
import AgentRules.Proofs.HeaderCheck
import AgentRules.Proofs.LineEnds
import AgentRules.Proofs.Mending.Reports
import AgentRules.Proofs.Partition.Descent
import AgentRules.Proofs.Redundancy
import AgentRules.Proofs.Report.FewerChecks
import AgentRules.Proofs.Wording
