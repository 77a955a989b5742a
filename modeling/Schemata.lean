import Schemata.Main
import Schemata.Sharing.Labelled
import Schemata.Proofs.Mark
import Schemata.Proofs.Registry
import Schemata.Proofs.Sharing.Occurrences
import Schemata.Proofs.Sharing.Ancestors
import Schemata.Proofs.Sharing.Sweep
import Schemata.Proofs.Lineage.Discovery
import Schemata.Proofs.Order
import Schemata.Proofs.Lineage.JoinOrder
import Schemata.Proofs.Graph.Basic
import Schemata.Proofs.Shape
import Schemata.Proofs.Graph.Planting
import Schemata.Proofs.Schema
import Schemata.Proofs.Graph.Renaming
import Schemata.Proofs.Sharing.Seats
import Schemata.Proofs.Graph.Siblings
import Schemata.Proofs.Graph.Moving
import Schemata.Proofs.Graph.Segments
import Schemata.Proofs.Graph.Spelling
import Schemata.Proofs.TypeNames
import Schemata.Proofs.Graph.Collecting
import Schemata.Proofs.Collisions
import Schemata.Proofs.Graph.Confined
import Schemata.Proofs.Lineage.Inheriting
import Schemata.Proofs.Lineage.Inheritance
import Schemata.Proofs.Lineage.Frame
import Schemata.Proofs.Collection
import Schemata.Proofs.Conversion
import Schemata.Proofs.Unfoldings
import Schemata.Proofs.Emission
import Schemata.Proofs.Flags
import Schemata.Proofs.Graph.Walks
import Schemata.Proofs.Lineage.Soundness
import Schemata.Proofs.Acyclicity
import Schemata.Proofs.Sharing.Groups
import Schemata.Proofs.Slices
import Schemata.Proofs.Digest
import Schemata.Proofs.Sharing.Digests
import Schemata.Proofs.Idempotence
import Schemata.Proofs.Sharing.Classes
import Schemata.Proofs.Graph.Depths
import Schemata.Proofs.Reading
import Schemata.Proofs.Placement
import Schemata.Proofs.Sharing.Relabelling
import Schemata.Proofs.Graph.Isomorphism
import Schemata.Proofs.Graph.Twins
import Schemata.Proofs.Invariance.Documents
import Schemata.Proofs.Invariance.Schemas
import Schemata.Proofs.Invariance.Joins
import Schemata.Proofs.Invariance.Collection
import Schemata.Proofs.Invariance.Conversion
import Schemata.Proofs.Drafts
import Schemata.Proofs.Parents
import Schemata.Proofs.Residues
import Schemata.Proofs.Sharing.Texts
import Schemata.Proofs.Legibility
import Schemata.Proofs.Grammar.Schemas
import Schemata.Proofs.Defaults
import Schemata.Proofs.DigestAlgebra
import Schemata.Proofs.Go.Loops
import Schemata.Proofs.Casing
import Schemata.Proofs.Wrappers
import Schemata.Proofs.Graph.Merges
import Schemata.Proofs.Go.Variables
import Schemata.Proofs.ByteOrder
import Schemata.Proofs.Go.Literals
import Schemata.Proofs.Composition
import Schemata.Proofs.Histories
import Schemata.Proofs.Families
import Schemata.Proofs.Fingerprints
import Schemata.Proofs.Lineage.Links
import Schemata.Proofs.Sharing.Loops
