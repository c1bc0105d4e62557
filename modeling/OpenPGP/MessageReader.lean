import OpenPGP.Compression
import OpenPGP.Correlation
import OpenPGP.MessageReader.Descent
import OpenPGP.MessageReader.Frame
/-!
# Reading a message

A `MessageReader` reads a message packet by packet and layer by layer. Every
packet is fed to the automaton of its layer before it is acted on. Containers are
decrypted or expanded as they are reached and read like the message itself; the
literal data is given out as it is asked for, and hashed on the way for the
signatures over it. After the first failure nothing is given out any more. A
signature whose check does not come to a result makes reading give up.

Results:
* `work_step_lt`: every step leaves less work, however much containers expand to.
-/
namespace OpenPGP

/-- Everything a message is read with: whoever provides secrets and certificates, a clock and
restrictions. -/
structure ReadingContext where
  credentials : CredentialProvider
  certificate? : KeyIdentifier → Option VerifyingKey
  now : Instant
  restrictions : Restrictions

namespace ReadingContext

/-- What the signatures of a message are judged by. -/
def verifier (o : ReadingContext) : VerificationContext := ⟨o.certificate?, o.now, o.restrictions.policy⟩

/-- The greatest number of open layers, the message itself included. -/
def maxLayers (o : ReadingContext) : Nat := o.restrictions.nestingDepth + 1

end ReadingContext

/-- Everything a message is read with, with secrets and certificates in lists. -/
structure ReadingOptions where
  credentials : Credentials
  certificates : Certificates
  now : Instant
  restrictions : Restrictions

namespace ReadingOptions

def context (o : ReadingOptions) : ReadingContext :=
  ⟨o.credentials, o.certificates.find?, o.now, o.restrictions⟩

instance : Coe ReadingOptions ReadingContext := ⟨context⟩

end ReadingOptions

/-- A message that is being read. -/
structure MessageReader (o : ReadingContext) where
  /-- The open layers, innermost first. -/
  frames : List Frame
  correlation : Correlation
  metadata : MetadataBuilder
  /-- Literal data that was not given out yet. -/
  literal : Octets
  /-- Whether reading has failed. -/
  poisoned : Bool
  /-- The metadata, once it was given out. -/
  finished : Option MessageMetadata
  nested : frames.length ≤ o.maxLayers

namespace MessageReader

variable {o : ReadingContext}

/-! ## Packets -/

/-- The reader with other open layers. -/
def withFrames (r : MessageReader o) (frames : List Frame) (h : frames.length ≤ o.maxLayers) :
    MessageReader o :=
  { r with frames, nested := h }

/-- Opens a layer inside the innermost one. -/
def enter (r : MessageReader o) (kind : LayerKind) (layer : Layer) (content : Octets) (frame : Frame)
    (outer : List Frame) (h : outer.length + 1 ≤ o.restrictions.nestingDepth) : MessageReader o :=
  { r with
    frames := Frame.ofContent kind content o.restrictions.packetLength :: frame :: outer
    metadata := r.metadata.record layer
    nested := by simp only [List.length_cons, ReadingContext.maxLayers]; omega }

/-- Expands compressed data and opens what was inside. -/
def enterCompressed (r : MessageReader o) (packet : CompressedData) (frame : Frame)
    (outer : List Frame) : Except MessageError (MessageReader o) :=
  if h : outer.length + 1 ≤ o.restrictions.nestingDepth then
    if !o.restrictions.policy.acceptsCompression packet.algorithm then
      .error (.unsupported (.compression packet.algorithm))
    else match packet.decompress o.restrictions.decompressedLength with
      | .error error => .error error
      | .ok content =>
        .ok (r.enter .compressed (.compression packet.algorithm) content frame outer h)
  else .error (.nestingTooDeep o.restrictions.nestingDepth)

/-- How encrypted data is authenticated, if the policy accepts the algorithms it names. -/
def integrityOf (policy : Policy) : EncryptedData → Except MessageError IntegrityProtection
  | .v1 _ => .ok .modificationDetection
  | .v2 algorithm mode .. =>
    if !policy.acceptsSymmetric algorithm then .error (.unsupported (.symmetric algorithm))
    else if !policy.acceptsAead mode then .error (.unsupported (.aead mode))
    else .ok (.aead mode)

/-- Decrypts encrypted data and opens what was inside; the key packets before it are used up. -/
def enterEncrypted (r : MessageReader o) (data : EncryptedData) (frame : Frame)
    (outer : List Frame) : Except MessageError (MessageReader o) :=
  if h : outer.length + 1 ≤ o.restrictions.nestingDepth then
    match integrityOf o.restrictions.policy data with
    | .error error => .error error
    | .ok integrity =>
      match data.resolveBy o.restrictions.policy o.credentials frame.keyPackets with
      | .error error => .error error
      | .ok resolved =>
        .ok (r.enter .encrypted (.encryption ⟨resolved.algorithm, integrity, resolved.source⟩)
          resolved.plaintext { frame with keyPackets := [] } outer h)
  else .error (.nestingTooDeep o.restrictions.nestingDepth)

/-- Settles the signature behind the data and records what came of it. -/
def settleSignature (r : MessageReader o) (signature : Signature) :
    Except MessageError (MessageReader o) :=
  match r.correlation.settle o.verifier signature with
  | (none, correlation) => .ok { r with correlation }
  | (some (position, verification), correlation) =>
    if verification.hasOverflowed then .error .overflow
    else .ok { r with
      correlation, metadata := r.metadata.recordAt position (.signature verification) }

/-- Acts on a packet of the innermost layer that was accepted; `beforeData` tells whether it came
before the data of its layer. -/
def act (r : MessageReader o) (beforeData : Bool) (packet : Packet) (frame : Frame)
    (outer : List Frame) (h : outer.length + 1 ≤ o.maxLayers) :
    Except MessageError (MessageReader o) :=
  let read := r.withFrames (frame :: outer) h
  match packet with
  | .publicKeySessionKey p => .ok (r.withFrames (frame.addKeyPacket (.publicKey p) :: outer) h)
  | .passphraseSessionKey p => .ok (r.withFrames (frame.addKeyPacket (.passphrase p) :: outer) h)
  | .encryptedData data => r.enterEncrypted data frame outer
  | .unprotectedData _ => .error .unprotected
  | .compressedData p => r.enterCompressed p frame outer
  | .onePassSignature p =>
    .ok { read with correlation := r.correlation.announce p r.metadata.position }
  | .signature s =>
    if beforeData then
      .ok { read with correlation := r.correlation.precede s r.metadata.position outer.length }
    else read.settleSignature s
  | .literalData p =>
    .ok { read with metadata := r.metadata.record (.literal (.ofPacket p)), literal := p.body }
  | .marker | .padding _ | .unknown .. => .ok read

/-- Takes the next packet of the innermost layer; one without a symbol is passed over. -/
def take (r : MessageReader o) (packet : Packet) (frame : Frame) (outer : List Frame)
    (h : outer.length + 1 ≤ o.maxLayers) : Except MessageError (MessageReader o) :=
  match packet.symbol? with
  | none => .ok (r.withFrames (frame :: outer) h)
  | some symbol =>
    match frame.automaton.next symbol with
    | (.error rejection, _) => .error (.malformed rejection)
    | (.ok (), automaton) => r.act frame.isBeforeData packet { frame with automaton } outer h

/-- Ends the innermost layer: its packets must be a message, and the signatures that preceded its data
are settled. -/
def leave (r : MessageReader o) (frame : Frame) (outer : List Frame)
    (h : outer.length ≤ o.maxLayers) : Except MessageError (MessageReader o) :=
  match frame.automaton.next .endOfSequence with
  | (.error rejection, _) => .error (.malformed rejection)
  | (.ok (), automaton) =>
    match automaton.assertValid with
    | .error rejection => .error (.malformed rejection)
    | .ok () =>
      let (settled, correlation) := r.correlation.settlePreceding o.verifier outer.length
      if settled.any fun (_, verification) => verification.hasOverflowed then .error .overflow
      else
        let metadata := settled.foldl (fun m (position, verification) =>
          m.recordAt position (.signature verification)) r.metadata
        .ok { r with
          frames := outer
          correlation
          metadata := if frame.kind = .message then metadata else metadata.close
          nested := h }

/-- Takes one packet or ends one layer; nothing is left to do once every layer has ended. -/
def step (r : MessageReader o) : Except MessageError (Option (MessageReader o)) :=
  match h : r.frames with
  | [] => .ok none
  | frame :: outer =>
    have bound : outer.length + 1 ≤ o.maxLayers := by simpa [h] using r.nested
    match frame.source.next with
    | .error error => .error (.packet error)
    | .ok none => (r.leave frame outer (by omega)).map some
    | .ok (some (packet, source)) => (r.take packet { frame with source } outer bound).map some

/-! ## Progress -/

/-- What the open layers have left. -/
def work (r : MessageReader o) : NestedWork o.maxLayers :=
  ⟨(r.frames.map fun f => f.source.remaining).reverse, by simpa using r.nested⟩

/-- The layers after something was done inside one: those around it are as they were, and it has the
source it had. -/
def Inside (r : MessageReader o) (source : PacketSource) (outer : List Frame) : Prop :=
  ∃ inner frame, r.frames = inner ++ frame :: outer ∧ frame.source = source

theorem inside_enterCompressed {r r' : MessageReader o} {packet : CompressedData} {frame : Frame}
    {outer : List Frame} (e : r.enterCompressed packet frame outer = .ok r') :
    r'.Inside frame.source outer := by
  unfold enterCompressed at e
  split at e
  · split at e
    · cases e
    split at e
    · cases e
    · cases e
      exact ⟨[_], frame, rfl, rfl⟩
  · cases e

theorem inside_enterEncrypted {r r' : MessageReader o} {data : EncryptedData} {frame : Frame}
    {outer : List Frame} (e : r.enterEncrypted data frame outer = .ok r') :
    r'.Inside frame.source outer := by
  unfold enterEncrypted at e
  split at e
  · split at e
    · cases e
    split at e
    · cases e
    · cases e
      exact ⟨[_], { frame with keyPackets := [] }, rfl, rfl⟩
  · cases e

theorem frames_settleSignature {r r' : MessageReader o} {signature : Signature}
    (e : r.settleSignature signature = .ok r') : r'.frames = r.frames := by
  unfold settleSignature at e
  split at e
  · cases e; rfl
  · split at e
    · cases e
    · cases e; rfl

theorem inside_act {r r' : MessageReader o} {beforeData : Bool} {packet : Packet} {frame : Frame}
    {outer : List Frame} {h : outer.length + 1 ≤ o.maxLayers}
    (e : r.act beforeData packet frame outer h = .ok r') : r'.Inside frame.source outer := by
  unfold act at e
  dsimp only at e
  split at e
  · cases e; exact ⟨[], frame.addKeyPacket _, rfl, rfl⟩
  · cases e; exact ⟨[], frame.addKeyPacket _, rfl, rfl⟩
  · exact inside_enterEncrypted e
  · cases e
  · exact inside_enterCompressed e
  · cases e; exact ⟨[], frame, rfl, rfl⟩
  · split at e
    · cases e; exact ⟨[], frame, rfl, rfl⟩
    · exact ⟨[], frame, frames_settleSignature e, rfl⟩
  · cases e; exact ⟨[], frame, rfl, rfl⟩
  · cases e; exact ⟨[], frame, rfl, rfl⟩
  · cases e; exact ⟨[], frame, rfl, rfl⟩
  · cases e; exact ⟨[], frame, rfl, rfl⟩

theorem inside_take {r r' : MessageReader o} {packet : Packet} {frame : Frame} {outer : List Frame}
    {h : outer.length + 1 ≤ o.maxLayers} (e : r.take packet frame outer h = .ok r') :
    r'.Inside frame.source outer := by
  unfold take at e
  split at e
  · cases e; exact ⟨[], frame, rfl, rfl⟩
  · split at e
    · cases e
    · next automaton _ =>
      have := inside_act e
      exact this

theorem frames_leave {r r' : MessageReader o} {frame : Frame} {outer : List Frame}
    {h : outer.length ≤ o.maxLayers} (e : r.leave frame outer h = .ok r') : r'.frames = outer := by
  unfold leave at e
  split at e
  · cases e
  split at e
  · cases e
  · dsimp only at e
    split at e
    · cases e
    · cases e; rfl

/-- What a successful step did to the innermost layer: it ended, or a packet was taken from it. -/
theorem step_eq_some {r r' : MessageReader o} (e : r.step = .ok (some r')) :
    ∃ frame outer, r.frames = frame :: outer ∧
      ((frame.source.next = .ok none ∧ r'.frames = outer) ∨
        ∃ packet source, frame.source.next = .ok (some (packet, source)) ∧ r'.Inside source outer) := by
  unfold step at e
  split at e
  · cases e
  · next frame outer h =>
    refine ⟨frame, outer, h, ?_⟩
    dsimp only at e
    split at e
    · cases e
    · next en =>
      cases el : r.leave frame outer (by have := r.nested; simp [h] at this; omega) with
      | error error => rw [el] at e; cases e
      | ok r₁ =>
        rw [el] at e
        cases e
        exact .inl ⟨en, frames_leave el⟩
    · next packet source en =>
      cases et : r.take packet { frame with source } outer (by have := r.nested; simp [h] at this; omega) with
      | error error => rw [et] at e; cases e
      | ok r₁ =>
        rw [et] at e
        cases e
        exact .inr ⟨packet, source, en, inside_take et⟩

theorem work_step_lt {r r' : MessageReader o} (e : r.step = .ok (some r')) :
    NestedWork.lt r'.work r.work := by
  obtain ⟨frame, outer, hr, h | ⟨packet, source, hn, inner, f, hf, hs⟩⟩ := step_eq_some e
  · simp only [NestedWork.lt, work, hr, h.2, List.map_cons, List.reverse_cons]
    exact NestedWork.lt_of_close
  · simp only [NestedWork.lt, work, hr, hf, hs, List.map_append, List.map_cons, List.reverse_append,
      List.reverse_cons, List.append_assoc, List.singleton_append]
    exact NestedWork.lt_of_take (PacketSource.remaining_lt hn)

/-! ## Reading -/

/-- The reader after a failure. -/
def poison (r : MessageReader o) : MessageReader o :=
  { r with frames := [], literal := [], poisoned := true, nested := Nat.zero_le _ }

/-- Goes on until literal data is there or every layer has ended. -/
def settle (r : MessageReader o) : Except MessageError Unit × MessageReader o :=
  if r.literal ≠ [] then (.ok (), r)
  else match _step : r.step with
    | .error error => (.error error, r.poison)
    | .ok none => (.ok (), r)
    | .ok (some next) => next.settle
termination_by r.work
decreasing_by exact work_step_lt _step

/-- Begins to read the packets of a source, up to the first literal octet. -/
def ofSource (o : ReadingContext) (source : PacketSource) : Except MessageError (MessageReader o) :=
  let start : MessageReader o :=
    { frames := [.ofSource .message source]
      correlation := .empty
      metadata := .empty
      literal := []
      poisoned := false
      finished := none
      nested := by simp [ReadingContext.maxLayers] }
  match start.settle with
  | (.ok (), r) => .ok r
  | (.error error, _) => .error error

/-- Begins to read a message off a source of octets. -/
def ofReader (o : ReadingContext) (source : Source) : Except MessageError (MessageReader o) :=
  ofSource o (.reader ⟨source, o.restrictions.packetLength⟩)

/-- The number of open layers, the message itself included. -/
def depth (r : MessageReader o) : Nat := r.frames.length

/-- The reader after `n` octets of literal data were given out. -/
def release (r : MessageReader o) (n : Nat) : MessageReader o :=
  { r with literal := r.literal.drop n, correlation := r.correlation.update (r.literal.take n) }

/-- Reads at most `n` octets of literal data; none at the end. -/
def read (r : MessageReader o) (n : Nat) : Except MessageError Octets × MessageReader o :=
  if r.poisoned then (.error .poisoned, r)
  else if n = 0 then (.ok [], r)
  else match r.settle with
    | (.error error, r) => (.error error, r)
    | (.ok (), r) => if r.literal = [] then (.ok [], r) else (.ok (r.literal.take n), r.release n)

/-- The metadata of a message whose literal data was read. Packets behind the data are read first. -/
def finish (r : MessageReader o) : Except MessageError MessageMetadata × MessageReader o :=
  if r.poisoned then (.error .poisoned, r)
  else match r.finished with
    | some metadata => (.ok metadata, r)
    | none =>
      if r.literal ≠ [] then (.error .incomplete, r)
      else match r.settle with
        | (.error error, r) => (.error error, r)
        | (.ok (), r) =>
          if r.literal ≠ [] then (.error .incomplete, r)
          else match r.metadata.finish r.frames.isEmpty with
            | .ok metadata => (.ok metadata, { r with metadata := .empty, finished := some metadata })
            | .error error => (.error error, { r with metadata := .empty })

/-- Going on either finds the reader where it should be or leaves less work. -/
theorem settle_work {r r' : MessageReader o} (e : r.settle = (.ok (), r')) :
    r' = r ∨ NestedWork.lt r'.work r.work := by
  fun_induction settle r with
  | case1 r h => cases e; exact .inl rfl
  | case2 r h error step => cases e
  | case3 r h step => cases e; exact .inl rfl
  | case4 r h next step ih =>
    have less := work_step_lt step
    obtain rfl | lt := ih e
    · exact .inr less
    · exact .inr (NestedWork.lex_trans lt less)

/-- Reads all literal data that is left: what was read, the failure that ended it, and the reader
behind it. -/
def readAll (r : MessageReader o) : Octets × Except MessageError Unit × MessageReader o :=
  if r.poisoned then ([], .error .poisoned, r)
  else match _settled : r.settle with
    | (.error error, r) => ([], .error error, r)
    | (.ok (), ready) =>
      if _empty : ready.literal = [] then ([], .ok (), ready)
      else
        let (rest, result, last) := (ready.release ready.literal.length).readAll
        (ready.literal ++ rest, result, last)
termination_by (r.work, r.literal.length)
decreasing_by
  obtain rfl | lt := settle_work _settled
  · exact .right _ (by
      have := List.length_pos_iff.mpr _empty
      simpa [release] using this)
  · exact .left _ _ lt

/-- The state of a reader, without what it holds. -/
def describe (r : MessageReader o) : String :=
  s!"DecryptionStream \x7b depth: {r.depth}, literal_remaining: {r.literal.length}, " ++
    s!"pending_signatures: {r.correlation.pending.length}, poisoned: {r.poisoned}, .. \x7d"

end MessageReader

/-- The literal data and the metadata of a whole message. -/
def readMessage (o : ReadingContext) (message : Octets) :
    Except MessageError (Octets × MessageMetadata) := do
  let r ← MessageReader.ofReader o (.ofOctets message)
  match r.readAll with
  | (_, .error error, _) => throw error
  | (octets, .ok (), r) => return (octets, ← r.finish.1)

end OpenPGP
