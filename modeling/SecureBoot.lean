import SecureBoot.Base.Words
import SecureBoot.Base.Clocked
import SecureBoot.Base.Waveform
import SecureBoot.Base.Exec
import SecureBoot.Base.Memory
import SecureBoot.Base.Traced
import SecureBoot.Base.Fips180
import SecureBoot.Sha256.Code
import SecureBoot.Sha256.Block
import SecureBoot.Sha256.Stream
import SecureBoot.Sha256.Bounds
import SecureBoot.Hardware.Registers
import SecureBoot.Hardware.Ed25519
import SecureBoot.Hardware.SpiPort
import SecureBoot.Hardware.IdealFlash
import SecureBoot.Hardware.Spi.Slave
import SecureBoot.Hardware.Spi.Waveform
import SecureBoot.Hardware.Spi.Master
import SecureBoot.Hardware.Spi.Link
import SecureBoot.Hardware.Spi.Block
import SecureBoot.Hardware.Spi.Flow
import SecureBoot.Hardware.Spi.Host
import SecureBoot.Hardware.Spi.Acceptance
import SecureBoot.Bootrom.Platform
import SecureBoot.Bootrom.Code
import SecureBoot.Bootrom.Access
import SecureBoot.Bootrom.Frame
import SecureBoot.Bootrom.Flash
import SecureBoot.Soc
import SecureBoot.Bootrom.Manifest
import SecureBoot.Bootrom.Rollback
import SecureBoot.Bootrom.Stages
import SecureBoot.Bootrom.Handoff
import SecureBoot.Bootrom.Run
import SecureBoot.Bootrom.Outcome
import SecureBoot.Bootrom.Image
import SecureBoot.Bootrom.Provision
import SecureBoot.Bootrom.Policy
import SecureBoot.Bootrom.Authentic
import SecureBoot.Bootrom.FailClosed
import SecureBoot.Bootrom.Transfers
import SecureBoot.Bootrom.RootOfTrust
import SecureBoot.Hardware.Spi.Stream
import SecureBoot.Base.Protection
import SecureBoot.Bootrom.Isolation
import SecureBoot.Bootrom.Exchange
import SecureBoot.Bootrom.Effort
import SecureBoot.Bootrom.Marks
import SecureBoot.Bootrom.Attribution
import SecureBoot.Hardware.HostFiles
import SecureBoot.Hardware.SharedFiles
import SecureBoot.Bootrom.Residue
import SecureBoot.Bootrom.Toolchain
import SecureBoot.Bootrom.Replacement
import SecureBoot.Bootrom.Checked
import SecureBoot.Base.Transition
import SecureBoot.Base.Relational
import SecureBoot.Startup.Text
import SecureBoot.Startup.Outline
import SecureBoot.Startup.Steps
import SecureBoot.Startup.Entry
import SecureBoot.Startup.Progress
import SecureBoot.Bootrom.Released
import SecureBoot.Bootrom.Life
import SecureBoot.Bootrom.Alike
import SecureBoot.Tools.Struct
import SecureBoot.Tools.ImageTool
import SecureBoot.Tools.Session
import SecureBoot.Bootrom.Mutation
import SecureBoot.Bootrom.Resigned
import SecureBoot.Bootrom.Upgrade
import SecureBoot.Bootrom.Footprint
import SecureBoot.Hardware.Spi.Interrupted
import SecureBoot.Hardware.Spi.Lagging
import SecureBoot.Bootrom.Restart
import SecureBoot.Bootrom.Restarted
