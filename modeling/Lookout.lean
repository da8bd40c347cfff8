import Lookout.Effects
import Lookout.Runs
import Lookout.Lpm
import Lookout.Handles
import Lookout.Common
import Lookout.Packet
import Lookout.TokenBucket
import Lookout.Limiter
import Lookout.Kernel
import Lookout.Xdp
import Lookout.Accounting
import Lookout.Firewall
import Lookout.Control
import Lookout.Fwctl
import Lookout.RateBound
import Lookout.Blocklist
import Lookout.ConfigRace
import Lookout.Tier
import Lookout.Polls
import Lookout.Tracking
import Lookout.Sessions
import Lookout.Enforced
import Lookout.Weakening
import Lookout.Capacity
import Lookout.Ladder
import Lookout.Tightening
import Lookout.DryRun
import Lookout.Sweep
import Lookout.Readout
import Lookout.Traffic
import Lookout.Load
import Lookout.Views
import Lookout.Undisturbed
import Lookout.Exempt
import Lookout.Renewal
import Lookout.Idle
import Lookout.Pacing
import Lookout.Feedback
import Lookout.Credit
import Lookout.Reads
import Lookout.Headers
import Lookout.Stages
import Lookout.Rules
import Lookout.Refusal
import Lookout.Walks
import Lookout.Windows
import Lookout.Strikes
import Lookout.Offences
import Lookout.Selftest
import Lookout.Loader
import Lookout.Reload
import Lookout.History
import Lookout.Overflow
import Lookout.Deadlines
import Lookout.Counting
import Lookout.Structs
import Lookout.Layouts
import Lookout.Networks
import Lookout.Reset
import Lookout.OnesComplement
import Lookout.NicPath
import Lookout.Batches
import Lookout.Movers
import Lookout.Atomic
import Lookout.Isolation
import Lookout.Guarantee
import Lookout.Conforming
import Lookout.Unlimited
import Lookout.Hits
import Lookout.Headroom
import Lookout.Shadows
import Lookout.Preview
import Lookout.Judged
import Lookout.Confined
import Lookout.Measured
import Lookout.Rounds
import Lookout.Caught
import Lookout.Slots
