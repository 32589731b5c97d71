import BlockInventory.Main
import BlockInventory.Proofs.Text.Ascii
import BlockInventory.Proofs.Tables
import BlockInventory.Proofs.Size
import BlockInventory.Proofs.UdevRecord
import BlockInventory.Proofs.FileTree.Entries
import BlockInventory.Proofs.Inventory.Records
import BlockInventory.Proofs.Inventory.Partitions
import BlockInventory.Proofs.Inventory.Collection
import BlockInventory.Proofs.Inventory.Units
import BlockInventory.Proofs.Inventory.Selection
import BlockInventory.Proofs.Inventory.Serials
import BlockInventory.Proofs.Json.Reading
import BlockInventory.Proofs.MountTable.SystemText
import BlockInventory.Proofs.Json.Writing
import BlockInventory.Proofs.Device.Filled
import BlockInventory.Proofs.Inventory.Names
import BlockInventory.Proofs.Inventory.Repetition
import BlockInventory.Proofs.Inventory.Invariant
import BlockInventory.Proofs.Inventory.Independence
import BlockInventory.Proofs.CommandLine.Arguments
import BlockInventory.Proofs.CommandLine.JsonOutput
import BlockInventory.Proofs.Text.Decoding
import BlockInventory.Proofs.Inventory.Failures
import BlockInventory.Proofs.MountTable.Escapes
import BlockInventory.Proofs.CommandLine.Choices
import BlockInventory.Proofs.Toml.PlainDocument
import BlockInventory.Proofs.Config
import BlockInventory.Proofs.CommandLine.UnitSources
import BlockInventory.Proofs.Text.Order
import BlockInventory.Proofs.CommandLine.TableOutput
import BlockInventory.Proofs.Tables.Composition
import BlockInventory.Proofs.PartitionTable.SystemText
import BlockInventory.Proofs.Device.SpelledTexts
import BlockInventory.Proofs.MountTable.Decoding
import BlockInventory.Proofs.Counts
