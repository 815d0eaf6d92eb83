import ProtoPhp.Main
import ProtoPhp.Proofs.Namespace.Parsing
import ProtoPhp.Proofs.Namespace.Table
import ProtoPhp.Proofs.Namespace.ScopeWalk
import ProtoPhp.Proofs.Declaration
import ProtoPhp.Proofs.Following
import ProtoPhp.Proofs.Units
import ProtoPhp.Proofs.Outcome
import ProtoPhp.Proofs.ClassNames
import ProtoPhp.Proofs.EntryPoints
import ProtoPhp.Proofs.Assembly
import ProtoPhp.Proofs.Locality
import ProtoPhp.Proofs.FileNames
import ProtoPhp.Proofs.Collisions
import ProtoPhp.Proofs.Command.Writing
import ProtoPhp.Proofs.Order
import ProtoPhp.Proofs.Php.ClassHead
import ProtoPhp.Proofs.PostOrder
import ProtoPhp.Proofs.Plugin.Answer
import ProtoPhp.Proofs.Registrations
import ProtoPhp.Proofs.ClassFiles
import ProtoPhp.Proofs.FieldReading
import ProtoPhp.Proofs.Accessors
import ProtoPhp.Proofs.Parameter
import ProtoPhp.Proofs.Literals
import ProtoPhp.Proofs.ClosedSources
import ProtoPhp.Proofs.MethodNames
import ProtoPhp.Proofs.Typed.Reading
import ProtoPhp.Proofs.Pool.CustomOptions
import ProtoPhp.Proofs.Precedence
