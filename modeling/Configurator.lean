import Configurator.History
import Configurator.Init
import Configurator.Interruption
import Configurator.Library.Interference
import Configurator.PodValidation
import Configurator.Purge
import Configurator.Rollback
import Configurator.Sends
import Configurator.Admission
import Configurator.Conduct
import Configurator.Contention
import Configurator.Edits
import Configurator.Refusal
import Configurator.Registration
import Configurator.Resolution
import Configurator.Restart
import Configurator.Reversion
import Configurator.Rollout
import Configurator.Snapshot
import Configurator.Stamping
import Configurator.Templates
import Configurator.Effects
import Configurator.Idempotence
import Configurator.Immutability
import Configurator.Independence
import Configurator.Library.Faults
import Configurator.Reports
import Configurator.Retention
import Configurator.Lookup
import Configurator.Patch
import Configurator.Keeping
import Configurator.Readmission
import Configurator.Twins
import Configurator.Examination
import Configurator.Failsafe
import Configurator.Library.Trace
import Configurator.Sharing
import Configurator.Library.Symmetry
import Configurator.Library.JsonPatch
import Configurator.Upkeep
import Configurator.Accord
import Configurator.NilMaps
import Configurator.Limits
import Configurator.Initialised
import Configurator.Library.Diary
import Configurator.Custody
import Configurator.Ledger
import Configurator.Authorship
import Configurator.Origins
import Configurator.Footprint
import Configurator.Verdicts
import Configurator.Sweep
import Configurator.Recall
import Configurator.Settling
import Configurator.Lifecycle
import Configurator.Library.Commuting
import Configurator.Confluence
import Configurator.Launch
