import BootVolume.BlockDevice
import BootVolume.BlockDevice.Mount
import BootVolume.Failure
import BootVolume.Files.Catalog
import BootVolume.Launch.Sequence
import BootVolume.Newc.Stream
import BootVolume.Options.Arguments
import BootVolume.Options.Item
import BootVolume.Proofs.BlockDevice.Contract
import BootVolume.Proofs.Content.Delivery
import BootVolume.Proofs.DevicePath.Files
import BootVolume.Proofs.Files.KeyedStore
import BootVolume.Proofs.Files.SplitReads
import BootVolume.Proofs.Image.AliasDirectories
import BootVolume.Proofs.Image.Building
import BootVolume.Proofs.Image.Consistency
import BootVolume.Proofs.Image.Descriptions
import BootVolume.Proofs.Image.FileSlots
import BootVolume.Proofs.Image.NewestName
import BootVolume.Proofs.Image.Overflow
import BootVolume.Proofs.Image.SharedAlias
import BootVolume.Proofs.Image.ShownNames
import BootVolume.Proofs.Journal
import BootVolume.Proofs.Launch.Gather
import BootVolume.Proofs.Launch.Protocol
import BootVolume.Proofs.Newc.AnyBytes
import BootVolume.Proofs.Newc.Measured
import BootVolume.Proofs.Newc.ReadBack
import BootVolume.Proofs.Newc.ReportedOnce
import BootVolume.Proofs.Newc.StreamRead
import BootVolume.Proofs.Options.Accepted
import BootVolume.Proofs.Uefi.Console
import BootVolume.Proofs.Uefi.Heap
import BootVolume.Proofs.Uefi.Release
import BootVolume.Rehearsal.Bench
import BootVolume.Rehearsal.Memory
import BootVolume.Rehearsal.Platform
import BootVolume.Uefi.BlockIo
import BootVolume.Uefi.Heap
import BootVolume.Uefi.Program
