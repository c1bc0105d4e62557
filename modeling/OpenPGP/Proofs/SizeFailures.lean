import Mathlib.Data.Nat.Init
import OpenPGP.Framing.Progress
import OpenPGP.Proofs.Outcome
/-!
# Failures that are not about sizes

Only the limit on bodies refuses anything for its size. Headers and lengths fail where octets are missing,
cannot be read or stand for no packet, and bodies where they are truncated or of an unknown layout.
`Framed.Sizeless` goes through readers as every property of requests does, `Field.Sizeless` through
sequences of fields.

Results:
* `Framed.compositional_sizeless`: headers, lengths and chunks that are read.
* `Packet.decode_sizeless`: what a body says.
-/
namespace OpenPGP

variable {α β : Type}

/-! ## Framing -/

namespace Framed

/-- A read that does not fail for a size. -/
def Sizeless (m : Framed α) : Prop := ∀ s e s', m s = .error e s' → ¬ e.IsAboutSize

theorem sizeless_pure (a : α) : Sizeless (pure a) := by
  rintro s e s' ⟨⟩

theorem sizeless_throw {error : PacketError} (h : ¬ error.IsAboutSize) :
    Sizeless (throw error : Framed α) := by
  rintro s _ s' ⟨⟩
  exact h

theorem Sizeless.bind {m : Framed α} {f : α → Framed β} (hm : Sizeless m) (hf : ∀ a, Sizeless (f a)) :
    Sizeless (m >>= f) := by
  intro s error s' h
  simp only [Bind.bind, EStateM.bind] at h
  split at h
  · exact hf _ _ _ _ h
  · next e => cases h; exact hm _ _ _ e

theorem sizeless_pull (n : Nat) : Sizeless (pull n) := by
  rintro s e s' ⟨⟩

theorem compositional_sizeless : Compositional @Sizeless where
  pure := sizeless_pure
  throw := sizeless_throw
  bind := Sizeless.bind
  pull_bind n _ _ hf := (sizeless_pull n).bind hf

end Framed

/-! ## Bodies -/

namespace Field

/-- A field that does not fail for a size. -/
def Sizeless (f : Field α) : Prop := ∀ part octets e, f.run part octets = .error e → ¬ e.IsAboutSize

theorem sizeless_pure (a : α) : Sizeless (pure a) := by
  rintro part octets e ⟨⟩

theorem sizeless_fail {error : PacketError} (h : ¬ error.IsAboutSize) : Sizeless (fail error : Field α) := by
  rintro part octets _ ⟨⟩
  exact h

theorem Sizeless.bind {f : Field α} {g : α → Field β} (hf : Sizeless f) (hg : ∀ a, Sizeless (g a)) :
    Sizeless (f >>= g) := by
  intro part octets e h
  change (f part octets >>= fun r => g r.1 part r.2) = .error e at h
  obtain h | ⟨r, -, h⟩ := Except.bind_eq_error.mp h
  · exact hf _ _ _ h
  · exact hg _ _ _ _ h

theorem sizeless_octet : Sizeless octet := by
  intro part octets e h
  cases octets <;> cases h
  exact nofun

theorem sizeless_take (n : Nat) : Sizeless (take n) := by
  intro part octets e h
  unfold run take at h
  dsimp only at h
  split at h <;> cases h
  exact nofun

theorem sizeless_sized (n : Nat) : Sizeless (sized n) := by
  intro part octets e h
  unfold run sized at h
  dsimp only at h
  split at h <;> cases h
  exact nofun

theorem sizeless_rest : Sizeless rest := by
  rintro part octets e ⟨⟩

theorem sizeless_number (width : Nat) : Sizeless (number width) :=
  (sizeless_take width).bind fun _ => sizeless_pure _

theorem sizeless_ofExcept {result : Except PacketError α} (h : ∀ e, result = .error e → ¬ e.IsAboutSize) :
    Sizeless (ofExcept result) := by
  intro part octets e hr
  cases result with
  | ok a => cases hr
  | error error => cases hr; exact h e rfl

end Field

section Fields

open OpenPGP.Field

theorem Subpacket.decodeArea_sizeless (area : Octets) {error : PacketError}
    (h : decodeArea area = .error error) : ¬ error.IsAboutSize := by
  have hfield : Sizeless field := by
    refine Sizeless.bind ?_ fun length => ?_
    · refine sizeless_octet.bind fun first => ?_
      split
      · exact sizeless_pure _
      split
      · exact sizeless_octet.bind fun _ => sizeless_pure _
      · exact sizeless_number 4
    · split
      · exact sizeless_fail nofun
      · exact sizeless_octet.bind fun _ => (sizeless_take _).bind fun _ => sizeless_pure _
  fun_induction decodeArea area with
  | case1 area he => cases h
  | case2 area he e hr => cases h; exact hfield _ _ _ hr
  | case3 area he s rest hr hs e hd ih => cases h; exact ih hd
  | case4 area he s rest hr hs behind hd ih => cases h
  | case5 area he s rest hr hs => cases h

theorem Signature.sizeless_field : Sizeless field := by
  refine sizeless_octet.bind fun version => ?_
  split
  · exact sizeless_fail nofun
  refine sizeless_octet.bind fun _ => sizeless_octet.bind fun _ => sizeless_octet.bind fun _ => ?_
  refine (sizeless_number 2).bind fun _ => (sizeless_take _).bind fun area => ?_
  refine (sizeless_ofExcept fun _ => Subpacket.decodeArea_sizeless area).bind fun _ => ?_
  refine (sizeless_number 2).bind fun _ => (sizeless_take _).bind fun area => ?_
  refine (sizeless_ofExcept fun _ => Subpacket.decodeArea_sizeless area).bind fun _ => ?_
  refine (sizeless_sized 2).bind fun _ => ?_
  dsimp only
  split
  · exact (sizeless_sized 64).bind fun _ => (sizeless_pure _).bind fun _ => sizeless_pure _
  · exact sizeless_rest.bind fun _ => (sizeless_pure _).bind fun _ => sizeless_pure _

theorem Specifier.sizeless_field : Sizeless field := by
  refine sizeless_octet.bind fun kind => ?_
  split
  · exact sizeless_octet.bind fun _ => sizeless_pure _
  · exact sizeless_octet.bind fun _ => (sizeless_sized 8).bind fun _ => sizeless_pure _
  · exact sizeless_octet.bind fun _ => (sizeless_sized 8).bind fun _ =>
      sizeless_octet.bind fun _ => sizeless_pure _
  · exact (sizeless_sized 16).bind fun _ => sizeless_octet.bind fun _ => sizeless_octet.bind fun _ =>
      sizeless_octet.bind fun _ => sizeless_pure _
  · exact sizeless_rest.bind fun _ => sizeless_pure _

theorem PublicKeySessionKey.sizeless_field : Sizeless field := by
  have hrecipient (version : UInt8) : Sizeless (recipientField version) := by
    unfold recipientField
    split
    · exact (sizeless_sized 8).bind fun _ => sizeless_pure _
    · refine sizeless_octet.bind fun length => ?_
      split
      · exact sizeless_pure _
      refine sizeless_octet.bind fun _ => (sizeless_take _).bind fun _ => ?_
      split
      · exact sizeless_pure _
      · exact sizeless_fail nofun
    · exact sizeless_fail nofun
  have hmaterial (version : UInt8) (algorithm : PublicKeyAlgorithm) :
      Sizeless (materialField version algorithm) := by
    unfold materialField
    split
    · refine (sizeless_sized 32).bind fun _ => sizeless_octet.bind fun length => ?_
      split
      · refine sizeless_octet.bind fun _ => ?_
        split
        · exact sizeless_fail nofun
        · exact (sizeless_take _).bind fun _ => sizeless_pure _
      · exact (sizeless_take _).bind fun _ => sizeless_pure _
    · exact sizeless_rest.bind fun _ => sizeless_pure _
  exact sizeless_octet.bind fun _ => (hrecipient _).bind fun _ => sizeless_octet.bind fun _ =>
    (hmaterial _ _).bind fun _ => sizeless_pure _

theorem PassphraseSessionKey.sizeless_field : Sizeless field := by
  refine sizeless_octet.bind fun version => ?_
  split
  · exact sizeless_octet.bind fun _ => Specifier.sizeless_field.bind fun _ =>
      sizeless_rest.bind fun _ => sizeless_pure _
  · refine sizeless_octet.bind fun _ => sizeless_octet.bind fun _ => sizeless_octet.bind fun _ => ?_
    refine sizeless_octet.bind fun _ => (sizeless_take _).bind fun octets => ?_
    refine (sizeless_ofExcept (Specifier.sizeless_field _ octets)).bind fun specifier => ?_
    dsimp only
    split
    · exact sizeless_fail nofun
    · exact (sizeless_take _).bind fun _ => sizeless_rest.bind fun _ => sizeless_pure _
  · exact sizeless_fail nofun

theorem OnePassSignature.sizeless_field : Sizeless field := by
  refine sizeless_octet.bind fun version => ?_
  split
  · exact sizeless_fail nofun
  · exact sizeless_octet.bind fun _ => sizeless_octet.bind fun _ => sizeless_octet.bind fun _ =>
      (sizeless_sized 8).bind fun _ => sizeless_octet.bind fun _ => sizeless_pure _

theorem LiteralData.sizeless_field : Sizeless field :=
  sizeless_octet.bind fun _ => sizeless_octet.bind fun _ => (sizeless_take _).bind fun _ =>
    (sizeless_number 4).bind fun _ => sizeless_rest.bind fun _ => sizeless_pure _

theorem EncryptedData.sizeless_field : Sizeless field := by
  refine sizeless_octet.bind fun version => ?_
  split
  · exact sizeless_rest.bind fun _ => sizeless_pure _
  · refine sizeless_octet.bind fun _ => sizeless_octet.bind fun _ => sizeless_octet.bind fun _ => ?_
    split
    · exact sizeless_fail nofun
    · exact (sizeless_sized 32).bind fun _ => sizeless_rest.bind fun _ => sizeless_pure _
  · exact sizeless_fail nofun

/-- What a body says is never refused for a size. -/
theorem Packet.decode_sizeless {tag : UInt8} {body : Octets} {error : PacketError}
    (h : decode tag body = .error error) : ¬ error.IsAboutSize := by
  unfold decode at h
  split at h
  · exact PublicKeySessionKey.sizeless_field _ _ _ (Except.map_eq_error.mp h)
  · exact Signature.sizeless_field _ _ _ (Except.map_eq_error.mp h)
  · exact PassphraseSessionKey.sizeless_field _ _ _ (Except.map_eq_error.mp h)
  · exact OnePassSignature.sizeless_field _ _ _ (Except.map_eq_error.mp h)
  · split at h <;> cases h
    exact nofun
  · cases h
  · split at h <;> cases h
    exact nofun
  · exact LiteralData.sizeless_field _ _ _ (Except.map_eq_error.mp h)
  · exact EncryptedData.sizeless_field _ _ _ (Except.map_eq_error.mp h)
  · cases h
  · cases h

end Fields

end OpenPGP
