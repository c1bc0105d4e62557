import OpenPGP.Compose.Rendering
import OpenPGP.MessageReader
import OpenPGP.Packet.Description
import OpenPGP.Proofs.Agreement
import OpenPGP.Proofs.Grammar.Completion
import OpenPGP.Proofs.MessageTree
import OpenPGP.Proofs.Release
import OpenPGP.Proofs.Completeness
import OpenPGP.Proofs.Composition
import OpenPGP.Proofs.Failures
import OpenPGP.Proofs.Reencoding
import OpenPGP.Proofs.Verdicts
import OpenPGP.Proofs.Limits
import OpenPGP.Proofs.ChunkedSealing
import OpenPGP.Proofs.Termination
import OpenPGP.Proofs.Transparency
import OpenPGP.Proofs.LineEnds
import OpenPGP.Proofs.Framings
import OpenPGP.Proofs.Requirements
import OpenPGP.Proofs.KeySearch
import OpenPGP.Proofs.SignedOctets
import OpenPGP.Proofs.QuickCheck
import OpenPGP.Proofs.SignatureTypes
import OpenPGP.Proofs.Verbatim
import OpenPGP.Proofs.BodyLimits
import OpenPGP.Proofs.PassphraseKeys
import OpenPGP.Proofs.ExpansionLimits
import OpenPGP.Proofs.Grammar.Stack
import OpenPGP.Proofs.Positions
