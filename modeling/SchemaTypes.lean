import SchemaTypes.Main
import SchemaTypes.Proofs.Cli.Preview
import SchemaTypes.Proofs.Datamodel.FirstClash
import SchemaTypes.Proofs.Datamodel.Writing
import SchemaTypes.Proofs.Declaration.Keys
import SchemaTypes.Proofs.Declaration.References
import SchemaTypes.Proofs.Disk.Containment
import SchemaTypes.Proofs.Disk.Writing
import SchemaTypes.Proofs.Format.Faults
import SchemaTypes.Proofs.Format.Layout
import SchemaTypes.Proofs.Host.ErrorStream
import SchemaTypes.Proofs.Host.Generation
import SchemaTypes.Proofs.Host.Offline
import SchemaTypes.Proofs.Host.Repetition
import SchemaTypes.Proofs.Payload
import SchemaTypes.Proofs.Settings.Indentation
import SchemaTypes.Proofs.Settings.Validity
import SchemaTypes.Proofs.Style.Programs
import SchemaTypes.Proofs.TypeScript.LiteralValue
import SchemaTypes.Proofs.TypeScript.StringReading
