import OpenPGP.Proofs.Completeness
import OpenPGP.Proofs.Sealing
/-!
# What is given out

A reader gives out, and holds ready, nothing but the data of a literal packet
it was led to by packets that were all accepted, through containers that were all
opened and authenticated; later failures change nothing about it. Encrypted data
without integrity protection ends the reading where it stands.

Results:
* `MessageReader.poisoned_after`: a reader that failed gives out nothing any more.
* `MessageReader.step_unprotected`: unprotected data cannot be passed.
* `MessageReader.released_of_reaches`: what is given out or recorded was opened, in every state.
* `MessageReader.released_of_containers`: runs that meet compressed, encrypted and unprotected data.
-/
namespace OpenPGP

theorem PacketSource.Yields.packets_eq {all ps : List Packet} {s : PacketSource}
    (h : (PacketSource.packets all).Yields ps s) : ∃ rest, all = ps ++ rest ∧ s = .packets rest := by
  generalize hsource : PacketSource.packets all = source at h
  induction h with
  | nil => exact ⟨all, rfl, hsource.symm⟩
  | snoc h hp ih =>
    subst hsource
    obtain ⟨rest, rfl, rfl⟩ := ih
    cases rest with
    | nil => cases hp
    | cons p rest =>
      cases hp
      exact ⟨rest, by rw [List.append_assoc]; rfl, rfl⟩

theorem PacketSource.Admits.eq_of_single {packets : List Packet} {p q : Packet}
    (h : (PacketSource.packets [q]).Admits packets p) : p = q := by
  obtain ⟨s, hyields⟩ := h.yields
  obtain ⟨rest, hall, -⟩ := hyields.packets_eq
  cases packets with
  | nil => exact (List.cons.inj hall).1.symm
  | cons first packets => simp at hall

namespace MessageReader

variable {o : ReadingContext}

/-- After a failure every request fails and changes nothing. -/
theorem poisoned_after {r : MessageReader o} (h : r.poisoned = true) :
    (∀ n, r.read n = (.error .poisoned, r)) ∧ r.finish = (.error .poisoned, r) := by
  constructor
  · intro n
    rw [MessageReader.read, if_pos h]
  · rw [MessageReader.finish, if_pos h]

/-- Encrypted data without integrity protection fails the reader, whether or not encrypted data may
stand where it does. -/
theorem step_unprotected {r : MessageReader o} {f : Frame} {outer : List Frame} {body : Octets}
    {rest : PacketSource} (hr : r.frames = f :: outer)
    (hn : f.source.next = .ok (some (.unprotectedData body, rest))) :
    r.step = .error .unprotected ∨ ∃ rejection, r.step = .error (.malformed rejection) := by
  obtain ⟨h, hstep⟩ := step_of_next_some hr hn
  rw [hstep]
  simp only [take, Packet.symbol?]
  split
  · next rejection a ha => exact .inr ⟨rejection, rfl⟩
  · exact .inl rfl

/-- A reader that meets it when nothing waits has failed, and has recorded nothing of it. -/
theorem settle_unprotected {r : MessageReader o} {f : Frame} {outer : List Frame} {body : Octets}
    {rest : PacketSource} (hl : r.literal = []) (hr : r.frames = f :: outer)
    (hn : f.source.next = .ok (some (.unprotectedData body, rest))) :
    ∃ error, r.settle = (.error error, r.poison) := by
  rcases step_unprotected hr hn with h | ⟨rejection, h⟩
  · exact ⟨_, settle_of_error hl h⟩
  · exact ⟨_, settle_of_error hl h⟩

/-- **Nothing is given out unchecked.** In every state a reader comes to, also after a failure:

* octets that wait or were given out are the first of literal data that the source leads to;
* every container that was recorded was opened, as compressed data or as encrypted data with integrity
  protection;
* a reader that meets encrypted data without it fails there, keeps the tree it had, and gives out
  nothing any more. -/
theorem released_of_reaches {source : PacketSource} {r : MessageReader o} {out : Octets}
    (h : Reaches o source r out) :
    (out ++ r.literal ≠ [] → ∃ p, LeadsTo o source p ∧ out ++ r.literal <+: p.body) ∧
    (∀ layer ∈ LayerNode.walk r.metadata.roots, layer.isContainer = true →
      ∃ keys d content, Opens o keys d layer content) ∧
    ∀ f outer body rest, r.frames = f :: outer →
      f.source.next = .ok (some (.unprotectedData body, rest)) → r.literal = [] →
      ∃ error failed, r.settle = (.error error, failed) ∧ failed.metadata = r.metadata ∧
        (∀ n, failed.read n = (.error .poisoned, failed)) ∧
        failed.finish = (.error .poisoned, failed) := by
  refine ⟨?_, h.holds.recorded, ?_⟩
  · intro hne
    rcases h.holds.literal_prefix with he | hp
    · exact absurd he hne
    · exact hp
  · intro f outer body rest hr hn hl
    obtain ⟨error, hsettle⟩ := settle_unprotected hl hr hn
    obtain ⟨hread, hfinish⟩ := poisoned_after (r := r.poison) rfl
    exact ⟨error, r.poison, hsettle, rfl, hread, hfinish⟩

section Examples

/-- A literal packet of one octet, and its wire form. -/
def singleOctet : LiteralData := ⟨.binary, [], 0, [0x61]⟩

def singleOctetPacket : Octets := [0xCB, 7, 0x62, 0, 0, 0, 0, 0, 0x61]

/-- Reading with one session key. -/
def sessionKeyOptions : ReadingContext :=
  ReadingOptions.context ⟨⟨[], [], [⟨some .aes128, List.replicate 16 7⟩]⟩, ⟨[]⟩, .ofSeconds 0, .standard⟩

/-- Data encrypted under this session key around the literal packet is read down to the octet. -/
theorem exists_reaches_encrypted : ∃ body r,
    Reaches sessionKeyOptions (.packets [.encryptedData (.v1 body)]) r [0x61] := by
  obtain ⟨cipher, hcipher⟩ : ∃ cipher, Crypto.Aes.key .aes128 (List.replicate 16 7) = .ok cipher := ⟨_, rfl⟩
  have hbody : Protection.encryptWithCode .aes128 (List.replicate 16 7) (List.replicate 16 0)
      singleOctetPacket = .ok _ := Except.bind_eq_ok.mpr ⟨cipher, hcipher, rfl⟩
  generalize Crypto.CipherFeedback.encryptFrom _ _ _ = body at hbody
  have hresolve : (EncryptedData.v1 body).resolveBy .standard sessionKeyOptions.credentials [] = _ :=
    EncryptedData.resolveBy_encryptWithCode rfl rfl rfl rfl rfl hbody []
  have ho := @Opens.encrypted sessionKeyOptions [] (.v1 body) .modificationDetection _ rfl hresolve
  have hinner : Reading sessionKeyOptions (.ofContent sessionKeyOptions singleOctetPacket)
      [⟨[.literalData singleOctet], [], .literalData singleOctet, .literal (.ofPacket singleOctet), [], []⟩]
      singleOctet := .literal (.snoc (.nil _) rfl) rfl (.literal rfl) rfl rfl
  have hkeys : ∀ k ∈ ([] : List Packet), k.symbol? = some .encryptedSessionKey := List.forall_mem_nil _
  have hreading : Reading sessionKeyOptions (.packets [.encryptedData (.v1 body)])
      [⟨[.encryptedData (.v1 body)], [], .encryptedData (.v1 body), _, [], []⟩, _] _ :=
    .inside (.snoc (.nil _) rfl) rfl (.encrypted hkeys rfl) ho hinner
  have hdepth : 2 ≤ sessionKeyOptions.maxLayers := by decide
  have hdecides : sessionKeyOptions.verifier.Decides :=
    VerificationContext.decides_of_no_certificate fun _ => rfl
  obtain ⟨r, -, -, hreach, -⟩ := (Delivers.of_start hdecides hreading hdepth).exists_finish
  exact ⟨body, r, hreach⟩

/-- Compressed data around a literal packet leads to its octet, and so does encrypted data, which is
authentic; unprotected data leads nowhere. -/
theorem released_of_containers :
    (∃ r, Reaches .keyless (.packets [.compressedData ⟨.uncompressed, singleOctetPacket⟩]) r [] ∧
      r.literal = [0x61] ∧
      ∃ p, LeadsTo .keyless (.packets [.compressedData ⟨.uncompressed, singleOctetPacket⟩]) p ∧
        [0x61] <+: p.body) ∧
    (∃ body r, Reaches sessionKeyOptions (.packets [.encryptedData (.v1 body)]) r [0x61] ∧
      ∃ algorithm key content p, Authentic algorithm key (.v1 body) content ∧
        LeadsTo sessionKeyOptions (.ofContent sessionKeyOptions content) p ∧ [0x61] <+: p.body) ∧
    ∃ error failed, (start .keyless (.packets [.unprotectedData [0x61]])).settle =
      (.error error, failed) ∧ failed.finish = (.error .poisoned, failed) := by
  refine ⟨?_, ?_, ?_⟩
  · have h : Reaches .keyless (.packets [.compressedData ⟨.uncompressed, singleOctetPacket⟩]) _ _ := .start
    have h := h.step rfl rfl
    have h := h.step rfl rfl
    exact ⟨_, h, rfl, (released_of_reaches h).1 (by decide)⟩
  · obtain ⟨body, r, h⟩ := exists_reaches_encrypted
    obtain ⟨p, hlead, hprefix⟩ := (released_of_reaches h).1 (by simp)
    have hbody : [0x61] <+: p.body := (List.prefix_append _ _).trans hprefix
    refine ⟨body, r, h, ?_⟩
    -- the one packet of the source is neither literal nor compressed data
    cases hlead with
    | literal ha => cases ha.eq_of_single
    | compressed ha => cases ha.eq_of_single
    | encrypted ha _ _ hauthentic hc =>
      cases ha.eq_of_single
      exact ⟨_, _, _, p, hauthentic, hc, hbody⟩
  · have h : Reaches .keyless (.packets [.unprotectedData [0x61]]) _ _ := .start
    obtain ⟨error, failed, hsettle, -, -, hfinish⟩ :=
      (released_of_reaches h).2.2 _ _ _ _ rfl rfl rfl
    exact ⟨error, failed, hsettle, hfinish⟩

end Examples

end MessageReader

end OpenPGP
