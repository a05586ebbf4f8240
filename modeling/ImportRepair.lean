import ImportRepair.CommandLine.Run
import ImportRepair.Main
import ImportRepair.Session
import ImportRepair.Proofs.CanonicalRepos
import ImportRepair.Proofs.CommandOrder
import ImportRepair.Proofs.CommandReading
import ImportRepair.Proofs.CommandTargets
import ImportRepair.Proofs.ExitCodes
import ImportRepair.Proofs.Generation
import ImportRepair.Proofs.Indifference
import ImportRepair.Proofs.Interruption
import ImportRepair.Proofs.Mirror
import ImportRepair.Proofs.Outcome
import ImportRepair.Proofs.PersistedDeclarations
import ImportRepair.Proofs.PersistedRepairs
import ImportRepair.Proofs.PlanContents
import ImportRepair.Proofs.PlanGrowth
import ImportRepair.Proofs.RepairCommands
import ImportRepair.Proofs.RepairedState
import ImportRepair.Proofs.ReportListing
import ImportRepair.Proofs.Resolution
import ImportRepair.Proofs.Respelling
import ImportRepair.Proofs.ShapeRules
import ImportRepair.Proofs.WarningText
