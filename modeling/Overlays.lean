import Overlays.Files.Disk
import Overlays.Main
import Overlays.Transaction.Encoding
import Overlays.Proofs.Parcel.Words
import Overlays.Proofs.Parcel.Steps
import Overlays.Proofs.Transaction.Codec
import Overlays.Proofs.Registry.PriorityList
import Overlays.Proofs.Registry.Commit
import Overlays.Proofs.Registry.NetEffect
import Overlays.Proofs.Manager.AllOrNothing
import Overlays.Proofs.Manager.Runs
import Overlays.Proofs.Manager.MissingTarget
import Overlays.Proofs.Manager.Visibility
import Overlays.Proofs.Registry.Targets
import Overlays.Proofs.SortedMap
import Overlays.Proofs.Registry.Similarity
import Overlays.Proofs.Manager.Replies
import Overlays.Proofs.Manager.Interleaving
import Overlays.Proofs.Manager.Isolation
import Overlays.Proofs.Manager.Resolution
import Overlays.Proofs.Manager.StateFile
import Overlays.Proofs.Parcel.Values
import Overlays.Proofs.Registry.Lookup
import Overlays.Proofs.Manager.Emptiness
import Overlays.Proofs.Command.Effects
import Overlays.Proofs.Session
import Overlays.Proofs.Registry.Exclusive
import Overlays.Proofs.Registry.Moves
import Overlays.Proofs.Transaction.Delimiting
import Overlays.Proofs.Parcel.Cursor
import Overlays.Proofs.Parcel.Bounds
import Overlays.Proofs.Parcel.Surrogates
import Overlays.Proofs.Text.Splitting
import Overlays.Proofs.ResourceName
import Overlays.Proofs.Text.Utf8
import Overlays.Proofs.Command.Listing
import Overlays.Proofs.CommandLine.Operands
import Overlays.Proofs.Command.Batch
import Overlays.Proofs.CommandLine.Commit
import Overlays.Proofs.Text.Digits
import Overlays.Proofs.User
import Overlays.Proofs.Text.Switches
import Overlays.Proofs.Message
