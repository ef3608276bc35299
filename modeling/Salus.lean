import Salus.Page
import Salus.SequentialPages
import Salus.PhysPages
import Salus.PageTable
import Salus.Interfaces
import Salus.VmPages
import Salus.System
import Salus.Measurement
import Salus.Holdings
import Salus.Donation
import Salus.Reclaim
import Salus.Isolation.Tables
import Salus.Isolation.Invariant
import Salus.Isolation.Calls
import Salus.Isolation.Conservation
import Salus.Isolation.Leaves
import Salus.Isolation.Step
import Salus.Isolation.Ids
import Salus.Isolation.HostMappings
import Salus.Isolation.ActiveGuests
import Salus.Placement
import Salus.Creation
import Salus.Lifecycle
import Salus.Handover
import Salus.HostBuild
import Salus.Isolation.OwnerStacks
import Salus.Isolation.Custody
import Salus.Shrinking
import Salus.Isolation.Footprint
import Salus.Isolation.Integrity
import Salus.Isolation.Success
