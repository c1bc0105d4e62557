import OpenPGP.MessageError
import OpenPGP.Text
import OpenPGP.Verification
/-!
# What a message was made of

The metadata of a message is a tree of the layers that were opened: an
encryption or compression layer holds what was inside it, and signatures stand
beside the data they cover. `MetadataBuilder` grows the tree while the message is
read, `MessageMetadata.layers` walks it in message order.
-/
namespace OpenPGP

/-! ## Layers -/

/-- How decrypted data was authenticated. -/
inductive IntegrityProtection where
  | modificationDetection
  | aead (mode : AeadAlgorithm)
  deriving DecidableEq

structure EncryptionLayer where
  algorithm : SymmetricAlgorithm
  integrity : IntegrityProtection
  source : KeySource
  deriving DecidableEq

/-- What literal data says about itself. -/
structure LiteralInfo where
  filename : String
  format : LiteralFormat
  /-- Seconds since the epoch; absent if the packet holds zero. -/
  modificationTime : Option Nat
  deriving DecidableEq

def LiteralInfo.ofPacket (p : LiteralData) : LiteralInfo where
  filename := Text.lossy p.filename
  format := p.format
  modificationTime := if p.modificationTime = 0 then none else some p.modificationTime.toNat

inductive Layer where
  | encryption (layer : EncryptionLayer)
  | compression (algorithm : CompressionAlgorithm)
  | literal (info : LiteralInfo)
  | signature (verification : SignatureVerification)
  deriving DecidableEq

namespace Layer

/-- Whether other layers may lie inside. -/
def isContainer : Layer → Bool
  | encryption _ | compression _ => true
  | literal _ | signature _ => false

def encryption? : Layer → Option EncryptionLayer
  | encryption layer => some layer
  | _ => none

def compression? : Layer → Option CompressionAlgorithm
  | compression algorithm => some algorithm
  | _ => none

def literal? : Layer → Option LiteralInfo
  | literal info => some info
  | _ => none

def signature? : Layer → Option SignatureVerification
  | signature verification => some verification
  | _ => none

end Layer

/-! ## Trees -/

/-- A layer and what lies inside it, in message order. -/
inductive LayerNode where
  | mk (layer : Layer) (children : List LayerNode)

namespace LayerNode

def layer : LayerNode → Layer
  | mk layer _ => layer

def children : LayerNode → List LayerNode
  | mk _ children => children

/-- A layer with nothing inside. -/
def leaf (layer : Layer) : LayerNode := ⟨layer, []⟩

mutual

/-- The number of nodes of a tree. -/
def size : LayerNode → Nat
  | mk _ children => 1 + totalSize children

/-- The number of nodes of several trees. -/
def totalSize : List LayerNode → Nat
  | [] => 0
  | node :: nodes => size node + totalSize nodes

end

@[simp] theorem totalSize_append (a b : List LayerNode) :
    totalSize (a ++ b) = totalSize a + totalSize b := by
  induction a with
  | nil => simp [totalSize]
  | cons node a ih => simp only [List.cons_append, totalSize, ih]; omega

/-- The layers of trees, each before what lies inside it: takes the first tree, and puts what lies
inside it in front of the others. -/
def walk : List LayerNode → List Layer
  | [] => []
  | mk layer children :: rest => layer :: walk (children ++ rest)
termination_by nodes => totalSize nodes
decreasing_by simp only [totalSize, totalSize_append, size]; omega

/-- The nodes inside the node at a path of child numbers; a number that no child has ends the path. -/
def childrenAt : (path : List Nat) → List LayerNode → List LayerNode
  | [], nodes => nodes
  | i :: path, nodes =>
    match nodes[i]? with
    | some node => childrenAt path node.children
    | none => nodes

/-- Puts a node behind those `childrenAt` gives. -/
def insertAt (node : LayerNode) : (path : List Nat) → List LayerNode → List LayerNode
  | [], nodes => nodes ++ [node]
  | i :: path, nodes =>
    match nodes[i]? with
    | some (mk layer children) => nodes.set i ⟨layer, insertAt node path children⟩
    | none => nodes ++ [node]

end LayerNode

/-- The layers of a message that was read to its end. -/
structure MessageMetadata where
  roots : List LayerNode

namespace MessageMetadata

/-- Every layer, in message order. -/
def layers (m : MessageMetadata) : List Layer := LayerNode.walk m.roots

def signatures (m : MessageMetadata) : List SignatureVerification := m.layers.filterMap Layer.signature?

def verifiedSignatures (m : MessageMetadata) : List SignatureVerification :=
  m.signatures.filter (·.verified)

def rejectedSignatures (m : MessageMetadata) : List SignatureVerification :=
  m.signatures.filter (!·.verified)

/-- The outermost encryption layer. -/
def encryption? (m : MessageMetadata) : Option EncryptionLayer := m.layers.findSome? Layer.encryption?

def literal? (m : MessageMetadata) : Option LiteralInfo := m.layers.findSome? Layer.literal?

def filename? (m : MessageMetadata) : Option String := m.literal?.map (·.filename)

/-- The compression algorithms, outermost first. -/
def compressionAlgorithms (m : MessageMetadata) : List CompressionAlgorithm :=
  m.layers.filterMap Layer.compression?

def isEncrypted (m : MessageMetadata) : Bool := m.encryption?.isSome

def isSigned (m : MessageMetadata) : Bool := m.layers.any fun layer => layer.signature?.isSome

/-- Whether there are signatures and all of them verified. -/
def isVerified (m : MessageMetadata) : Bool :=
  !m.signatures.isEmpty && m.signatures.all (·.verified)

/-- Whether the key of a name made a signature that verified. -/
def isVerifiedSignedBy (m : MessageMetadata) (id : KeyIdentifier) : Bool :=
  m.verifiedSignatures.any fun s => s.signer.any id.matchesFingerprint

end MessageMetadata

/-! ## Growing -/

/-- A tree that grows and the path of the container that is open. -/
structure MetadataBuilder where
  roots : List LayerNode
  position : List Nat

namespace MetadataBuilder

def empty : MetadataBuilder := ⟨[], []⟩

/-- Records a layer inside the open container; a container is open from then on. -/
def record (b : MetadataBuilder) (layer : Layer) : MetadataBuilder where
  roots := LayerNode.insertAt (.leaf layer) b.position b.roots
  position :=
    if layer.isContainer then b.position ++ [(LayerNode.childrenAt b.position b.roots).length]
    else b.position

/-- Records a layer inside the container at a path. -/
def recordAt (b : MetadataBuilder) (position : List Nat) (layer : Layer) : MetadataBuilder :=
  { b with roots := LayerNode.insertAt (.leaf layer) position b.roots }

/-- Closes the open container. -/
def close (b : MetadataBuilder) : MetadataBuilder := { b with position := b.position.dropLast }

/-- The tree of a message whose structure was accepted. -/
def finish (b : MetadataBuilder) (accepted : Bool) : Except MessageError MessageMetadata :=
  if accepted then .ok ⟨b.roots⟩ else .error .incomplete

end MetadataBuilder

end OpenPGP
