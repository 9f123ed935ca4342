import ShinySongTools.Core.Relocation
import ShinySongTools.Lockstep
import ShinySongTools.BitFields
import ShinySongTools.Machine
import ShinySongTools.Custody
import ShinySongTools.Core.Gate
import ShinySongTools.Core.EntryPatchMemory
import ShinySongTools.Core.Original
import ShinySongTools.Core.Hook
import ShinySongTools.Core.Relay
import ShinySongTools.Debug.Conservation
import ShinySongTools.Runtime.Ownership
import ShinySongTools.Ledger
import ShinySongTools.Runtime.Turns
import ShinySongTools.Runtime.Rollback
import ShinySongTools.Runtime.Frame
import ShinySongTools.Runtime.Retirement
import ShinySongTools.Runtime.Bootstrap
import ShinySongTools.Core.Displaced
import ShinySongTools.Core.Simulation
import ShinySongTools.Core.Relocatable
import ShinySongTools.Debug.Conversation
import ShinySongTools.Debug.ActiveIds
import ShinySongTools.Runtime.Chronicle
import ShinySongTools.Runtime.FrameSteps
import ShinySongTools.Runtime.Lifecycle
import ShinySongTools.Core.Overtaking
import ShinySongTools.Debug.Plane
import ShinySongTools.Debug.Isolation
import ShinySongTools.Core.Container
import ShinySongTools.Runtime.CommandDrain
import ShinySongTools.Runtime.BoundedRoutes
import ShinySongTools.Runtime.Watermark
import ShinySongTools.Dump.Session
import ShinySongTools.Dump.Persistence
import ShinySongTools.Arm.DataAccess
import ShinySongTools.Core.Classification
import ShinySongTools.Arm.Memory
import ShinySongTools.Core.EntryBytes
import ShinySongTools.Core.Dispatch
import ShinySongTools.Core.InstalledFlag
import ShinySongTools.Runtime.ExactlyOnce
import ShinySongTools.Core.MainDebug
import ShinySongTools.Runtime.Topics
import ShinySongTools.Runtime.TopicRetirement
import ShinySongTools.Debug.Wire
import ShinySongTools.Runtime.SlotCapture
import ShinySongTools.Dump.Probes
import ShinySongTools.Dump.Coverage
import ShinySongTools.Dump.Walk
import ShinySongTools.Dump.WholeTable
import ShinySongTools.Bundle.Sandbox
import ShinySongTools.Bundle.Transaction
import ShinySongTools.Bundle.Atomicity
import ShinySongTools.Bundle.Runs
import ShinySongTools.Bundle.Discipline
import ShinySongTools.Dump.Timeliness
import ShinySongTools.Debug.Connection
import ShinySongTools.Debug.Fate
import ShinySongTools.Fps.Plugin
import ShinySongTools.Fps.Setting
import ShinySongTools.Core.Replacement
import ShinySongTools.Dump.Targets
import ShinySongTools.Dump.Transparency
import ShinySongTools.Publish.Consistency
import ShinySongTools.Patch.Application
import ShinySongTools.Recon.Walk
import ShinySongTools.Recon.Callers
import ShinySongTools.Templates.Substitution
import ShinySongTools.Runtime.Startup
import ShinySongTools.Runtime.Composition
