import OpenPGP.Compose.Environment
import OpenPGP.Crypto.Aead.Counter
import OpenPGP.Proofs.Trials
/-!
# Opening what was sealed

Encrypted data of version 1 decrypts to the content it was made of. Cipher
feedback asks nothing of the cipher but whole blocks, and what it makes of a
beginning does not depend on what follows, so the quick check passes as well. It says
whether the octets behind the random block are its last two; the decryption does not ask.
The random block has its full size, wherever the generator stands.

Results:
* `CipherFeedback.decryptFrom_encryptFrom`: what was encrypted is decrypted again.
* `CipherFeedback.decryptFrom_take_encryptFrom`: a beginning of the ciphertext is decrypted alone.
* `CipherFeedback.encryptFrom_decryptFrom`: what was decrypted is encrypted again.
* `Protection.withoutCode_withRepeated`: the code of what was sealed is right.
* `Protection.open_withRepeated`: sealed data gives its content, whatever the quick check says.
* `Protection.open_encryptWithCode`: sealed data passes both checks and gives its content.
* `EncryptedData.resolveBy_encryptWithCode`: given its key, it is opened at the first trial.
* `Generator.length_octets`: a generator gives as many octets as are asked for.
-/
namespace OpenPGP

open Crypto

/-! ## Cipher feedback -/

theorem Octets.xor_take (n : Nat) (a b : Octets) : xor (a.take n) b = (xor a b).take n := by
  induction a generalizing n b with
  | nil => simp [xor]
  | cons x a ih =>
    cases n with
    | zero => rfl
    | succ n =>
      cases b with
      | nil => simp [xor]
      | cons y b => simpa [xor] using ih n b

theorem Octets.length_xor_of_le {a b : Octets} (h : a.length ≤ b.length) :
    (xor a b).length = a.length := by
  rw [xor, List.length_zipWith]
  omega

namespace Crypto.CipherFeedback

variable {cipher : Octets → Octets}

theorem length_encryptFrom (h : ∀ block, (cipher block).length = 16) (feedback data : Octets) :
    (encryptFrom cipher feedback data).length = data.length := by
  fun_induction encryptFrom cipher feedback data with
  | case1 => rfl
  | case2 feedback data ended block ih =>
    have hblock : block.length = (data.take 16).length :=
      Octets.length_xor_of_le (by rw [h, List.length_take]; omega)
    rw [List.length_append, ih, hblock, List.length_take, List.length_drop]
    omega

theorem encryptFrom_nil (feedback : Octets) : encryptFrom cipher feedback [] = [] := by
  rw [encryptFrom, dif_pos rfl]

theorem decryptFrom_nil (feedback : Octets) : decryptFrom cipher feedback [] = [] := by
  rw [decryptFrom, dif_pos rfl]

/-- A block is cut off again in front of what was made of the data behind it: it is whole, or nothing is
behind it. -/
theorem cut_block {f : Octets → Octets} (hf : f [] = []) {block data : Octets}
    (h : block.length = min 16 data.length) : (block ++ f (data.drop 16)).take 16 = block ∧
      (block ++ f (data.drop 16)).drop 16 = f (data.drop 16) := by
  by_cases hlong : 16 ≤ data.length
  · have hwhole : block.length = 16 := by omega
    exact ⟨List.take_left' hwhole, List.drop_left' hwhole⟩
  · rw [List.drop_eq_nil_of_le (Nat.le_of_not_le hlong), hf, List.append_nil]
    exact ⟨List.take_of_length_le (by omega), List.drop_eq_nil_of_le (by omega)⟩

/-- A beginning of the ciphertext gives the beginning of the data. -/
theorem decryptFrom_take_encryptFrom (h : ∀ block, (cipher block).length = 16)
    (feedback data : Octets) (n : Nat) :
    decryptFrom cipher feedback ((encryptFrom cipher feedback data).take n) = data.take n := by
  fun_induction encryptFrom cipher feedback data generalizing n with
  | case1 => rw [List.take_nil, decryptFrom_nil]
  | case2 feedback data ended block ih =>
    by_cases hn : n = 0
    · subst hn
      rw [List.take_zero, decryptFrom_nil, List.take_zero]
    have hshort : (data.take 16).length ≤ (cipher feedback).length := by
      rw [h, List.length_take]
      omega
    have hblock : block.length = min 16 data.length := by
      rw [Octets.length_xor_of_le hshort, List.length_take]
    have hpos : 0 < data.length := List.length_pos_iff.mpr ended
    obtain ⟨hfirst, hbehind⟩ :=
      cut_block (f := encryptFrom cipher block) (encryptFrom_nil block) hblock
    have hne : (block ++ encryptFrom cipher block (data.drop 16)).take n ≠ [] := by
      intro he
      have := congrArg List.length he
      rw [List.length_take, List.length_append, List.length_nil] at this
      omega
    rw [decryptFrom, dif_neg hne]
    simp only [List.take_take, List.drop_take, hbehind]
    rw [Nat.min_comm, ← List.take_take, hfirst, Octets.xor_take]
    rw [show Octets.xor block (cipher feedback) = data.take 16 from xor_xor_sized _ _ hshort]
    by_cases hcut : n ≤ 16
    · rw [Nat.sub_eq_zero_of_le hcut, List.take_zero, decryptFrom_nil, List.append_nil,
        List.take_take, Nat.min_eq_left hcut]
    · rw [List.take_of_length_le (l := block) (by omega), ih, List.take_take,
        Nat.min_eq_right (by omega), ← List.drop_take]
      have := List.take_append_drop 16 (data.take n)
      rwa [List.take_take, Nat.min_eq_left (by omega)] at this

theorem decryptFrom_encryptFrom (h : ∀ block, (cipher block).length = 16) (feedback data : Octets) :
    decryptFrom cipher feedback (encryptFrom cipher feedback data) = data := by
  have := decryptFrom_take_encryptFrom h feedback data data.length
  rwa [List.take_of_length_le (Nat.le_of_eq (length_encryptFrom h feedback data)),
    List.take_length] at this

/-- What is encrypted to some octets is what they decrypt to. -/
theorem encryptFrom_decryptFrom (h : ∀ block, (cipher block).length = 16) (feedback data : Octets) :
    encryptFrom cipher feedback (decryptFrom cipher feedback data) = data := by
  fun_induction decryptFrom cipher feedback data with
  | case1 => rw [encryptFrom_nil]
  | case2 feedback data ended block ih =>
    have hshort : block.length ≤ (cipher feedback).length := by
      rw [h, List.length_take]
      omega
    have hlength : (Octets.xor block (cipher feedback)).length = min 16 data.length := by
      rw [Octets.length_xor_of_le hshort, List.length_take]
    have hpos : 0 < data.length := List.length_pos_iff.mpr ended
    obtain ⟨hfirst, hbehind⟩ :=
      cut_block (f := decryptFrom cipher block) (decryptFrom_nil block) hlength
    have hne : Octets.xor block (cipher feedback) ++ decryptFrom cipher block (data.drop 16) ≠ [] := by
      intro he
      have := congrArg List.length he
      rw [List.length_append, List.length_nil] at this
      omega
    rw [encryptFrom, dif_neg hne]
    simp only [hfirst, hbehind, xor_xor_sized _ _ hshort, ih]
    exact List.take_append_drop 16 data

end Crypto.CipherFeedback

theorem Crypto.Aes.length_encrypt (k : Aes.Key) (block : Octets) : (k.encrypt block).length = 16 := rfl

/-! ## The modification detection code -/

namespace Protection

theorem length_modificationCode (data : Octets) : (modificationCode data).length = 20 := rfl

/-- What is encrypted if any octets stand behind the start, its last two or others. -/
def withRepeated (start repeated content : Octets) : Octets :=
  let data := start ++ repeated ++ content ++ codeHeader
  data ++ modificationCode data

theorem length_withRepeated {start repeated : Octets} (hs : start.length = 16) (hr : repeated.length = 2)
    (content : Octets) : (withRepeated start repeated content).length = content.length + 40 := by
  simp only [withRepeated, List.length_append, hs, hr, length_modificationCode, codeHeader,
    List.length_cons, List.length_nil]
  omega

theorem withoutCode_append (block : Nat) (front : Octets) :
    withoutCode block (front ++ (codeHeader ++ modificationCode (front ++ codeHeader))) =
      .ok (front.drop (block + 2)) := by
  have hsplit : (front ++ (codeHeader ++ modificationCode (front ++ codeHeader))).length - codeLength =
      front.length := by
    simp only [List.length_append, length_modificationCode, codeHeader, codeLength, List.length_cons,
      List.length_nil]
    omega
  have hcovered : (front ++ (codeHeader ++ modificationCode (front ++ codeHeader))).take
      (front.length + 2) = front ++ codeHeader := by
    rw [List.take_add, List.take_left, List.drop_left]
    rfl
  have hheader : (codeHeader ++ modificationCode (front ++ codeHeader)).take 2 = codeHeader := rfl
  have hcode : (codeHeader ++ modificationCode (front ++ codeHeader)).drop 2 =
      modificationCode (front ++ codeHeader) := rfl
  simp only [withoutCode, hsplit, hcovered, List.drop_left, List.take_left, hheader, hcode, ne_eq,
    not_true_eq_false, if_false]

theorem withoutCode_withRepeated {start repeated : Octets} (hs : start.length = 16)
    (hr : repeated.length = 2) (content : Octets) :
    withoutCode 16 (withRepeated start repeated content) = .ok content := by
  have hdata : withRepeated start repeated content = (start ++ repeated ++ content) ++
      (codeHeader ++ modificationCode (start ++ repeated ++ content ++ codeHeader)) := by
    simp only [withRepeated, List.append_assoc]
  have hstart : (start ++ repeated).length = 16 + 2 := by rw [List.length_append, hs, hr]
  rw [hdata, withoutCode_append, ← hstart, List.drop_left]

/-- What was sealed under a key of AES decrypts to its content, whatever stands behind the start. The
quick check says whether that is the end of the start. -/
theorem open_withRepeated {algorithm : SymmetricAlgorithm} {key start repeated content body : Octets}
    (ha : algorithm.blockSize = some 16) (hs : start.length = 16) (hr : repeated.length = 2)
    (h : CipherFeedback.encrypt algorithm key (withRepeated start repeated content) = .ok body) :
    decryptWithCode algorithm key body = .ok content ∧
      startRepeats algorithm key body = .ok (decide (start.drop 14 = repeated)) ∧
      body.length = content.length + 40 := by
  obtain ⟨k, hk, h⟩ := Except.bind_eq_ok.mp h
  cases h
  have hcipher := Aes.length_encrypt k
  have hlength : (CipherFeedback.encryptFrom k.encrypt CipherFeedback.start
      (withRepeated start repeated content)).length = content.length + 40 := by
    rw [CipherFeedback.length_encryptFrom hcipher, length_withRepeated hs hr]
  have hblock : blockSizeOf algorithm = .ok 16 := by rw [blockSizeOf, ha]
  have hdecrypt : ∀ n, CipherFeedback.decrypt algorithm key ((CipherFeedback.encryptFrom k.encrypt
      CipherFeedback.start (withRepeated start repeated content)).take n) =
        .ok ((withRepeated start repeated content).take n) :=
    fun n => Except.bind_eq_ok.mpr
      ⟨k, hk, congrArg _ (CipherFeedback.decryptFrom_take_encryptFrom hcipher _ _ n)⟩
  refine ⟨?_, ?_, hlength⟩
  · have hall := hdecrypt (content.length + 40)
    rw [List.take_of_length_le (Nat.le_of_eq hlength),
      List.take_of_length_le (Nat.le_of_eq (length_withRepeated hs hr content))] at hall
    refine Except.bind_eq_ok.mpr ⟨16, Except.mapError_eq_ok.mpr hblock, ?_⟩
    rw [hlength, codeLength, if_neg (by omega)]
    exact Except.bind_eq_ok.mpr ⟨_, Except.mapError_eq_ok.mpr hall,
      Except.mapError_eq_ok.mpr (withoutCode_withRepeated hs hr content)⟩
  · have hstart : (start ++ repeated).length = 18 := by rw [List.length_append, hs, hr]
    have hfirst : (withRepeated start repeated content).take 18 = start ++ repeated := by
      rw [withRepeated, List.append_assoc _ content, List.append_assoc, ← hstart, List.take_left]
    have hend : ((start ++ repeated).drop 14).take 2 = start.drop 14 := by
      have htail : (start.drop 14).length = 2 := by rw [List.length_drop, hs]
      rw [List.drop_append_of_le_length (by omega), ← htail, List.take_left]
    have hbehind : (start ++ repeated).drop 16 = repeated := by rw [← hs, List.drop_left]
    refine Except.bind_eq_ok.mpr ⟨16, hblock, ?_⟩
    rw [hlength, if_neg (by omega)]
    refine Except.bind_eq_ok.mpr ⟨_, hdecrypt 18, ?_⟩
    rw [hfirst, hend, hbehind]
    rfl

/-- What was sealed under a key of AES decrypts to its content and passes the quick check. -/
theorem open_encryptWithCode {algorithm : SymmetricAlgorithm} {key start content body : Octets}
    (ha : algorithm.blockSize = some 16) (hs : start.length = 16)
    (h : encryptWithCode algorithm key start content = .ok body) :
    decryptWithCode algorithm key body = .ok content ∧
      startRepeats algorithm key body = .ok true ∧ body.length = content.length + 40 := by
  have hend : start.drop (start.length - 2) = start.drop 14 := by rw [hs]
  have hr : (start.drop (start.length - 2)).length = 2 := by rw [List.length_drop, hs]
  obtain ⟨hopen, hcheck, hlength⟩ := open_withRepeated ha hs hr h
  exact ⟨hopen, hcheck.trans (congrArg _ (decide_eq_true hend.symm)), hlength⟩

end Protection

/-- If the first session key that is given is the one encrypted data was made with, it opens the
data. -/
theorem EncryptedData.resolveBy_encryptWithCode {policy : Policy} {credentials : CredentialProvider}
    {algorithm : SymmetricAlgorithm} {key start content body : Octets} {others : List SessionKey}
    (hk : credentials.sessionKeys = ⟨some algorithm, key⟩ :: others)
    (hp : policy.acceptsSymmetric algorithm = true) (hl : algorithm.keySize = some key.length)
    (ha : algorithm.blockSize = some 16) (hs : start.length = 16)
    (h : Protection.encryptWithCode algorithm key start content = .ok body) (packets : List KeyPacket) :
    (EncryptedData.v1 body).resolveBy policy credentials packets =
      .ok ⟨algorithm, ⟨some algorithm, key⟩, .sessionKey 0, content⟩ := by
  obtain ⟨hopen, hcheck, -⟩ := Protection.open_encryptWithCode ha hs h
  have haccept : Resolution.accept policy (.v1 body) (.sessionKey 0) ⟨some algorithm, key, false⟩ =
      .ok ⟨algorithm, ⟨some algorithm, key⟩, .sessionKey 0, content⟩ :=
    Resolution.accept_eq_ok_iff.mpr ⟨algorithm, content, ⟨rfl, hp, hl, fun _ => hcheck⟩, hopen, rfl⟩
  have hruns : Resolution.Runs policy (.v1 body) (Resolution.trials credentials packets 1) []
      (some ⟨algorithm, ⟨some algorithm, key⟩, .sessionKey 0, content⟩) := by
    rw [Resolution.trials, Resolution.sessionKeyTrials, hk]
    exact .success haccept
  exact EncryptedData.resolveBy_of_runs hruns

/-! ## Random octets -/

namespace Crypto

namespace ChaCha20

theorem size_quarterRound (s : Words) (i j k l : Nat) : (quarterRound s i j k l).size = s.size := by
  simp only [quarterRound, Array.size_setIfInBounds]

theorem size_doubleRound (s : Words) : (doubleRound s).size = s.size := by
  simp only [doubleRound, size_quarterRound]

theorem size_repeat_doubleRound (n : Nat) (s : Words) : (Nat.repeat doubleRound n s).size = s.size := by
  induction n with
  | zero => rfl
  | succ n ih => rw [Nat.repeat, size_doubleRound, ih]

theorem length_block {key : List UInt32} (h : key.length = 8) (counter : Nat) :
    (block key counter).length = 16 := by
  simp only [block, Array.length_toList, Array.size_zipWith, size_repeat_doubleRound, Nat.min_self]
  simp [h]

theorem length_keyWords (count : Nat) (state : UInt64) : (keyWords count state).length = count := by
  induction count generalizing state with
  | zero => rfl
  | succ count ih => rw [keyWords, List.length_cons, ih]

end ChaCha20

namespace Generator

theorem length_flatMap_of_length {α β : Type} {f : α → List β} {n : Nat} (h : ∀ a, (f a).length = n)
    (l : List α) : (l.flatMap f).length = n * l.length := by
  induction l with
  | nil => rfl
  | cons a l ih => rw [List.flatMap_cons, List.length_append, h, ih, List.length_cons, Nat.mul_succ,
      Nat.add_comm]

/-- As many octets as are asked for, and a generator with the same key. -/
theorem length_octets {g : Generator} (h : g.key.length = 8) (n : Nat) :
    (g.octets n).1.length = n ∧ (g.octets n).2.key = g.key := by
  refine ⟨?_, rfl⟩
  simp only [octets, List.length_take]
  rw [length_flatMap_of_length (n := 4) (fun w => rfl), List.length_take, List.length_drop,
    length_flatMap_of_length (fun i => ChaCha20.length_block h _), List.length_range]
  -- the blocks hold the words that are dropped and those that are taken
  omega

end Generator

end Crypto

end OpenPGP
