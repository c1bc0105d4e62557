import OpenPGP.Proofs.Runs
/-!
# Reading in any amounts

A caller reads the data of a message in amounts of its own choice, and may ask
for the metadata at any time. A reader `Promises` the data that is left and the
metadata behind it: that is what reading everything at once and finishing would
give. Every request keeps the promise, less the octets it gave out, so nothing
depends on the amounts or on requests that came too early.

Results:
* `MessageReader.Promises.read`, `MessageReader.Promises.finish`: what one request gives.
* `MessageReader.Promises.serve`: what is left behind any requests.
* `readMessage_of_requests`: every schedule gives the data and the metadata of `readMessage`.
-/
namespace OpenPGP

namespace MessageReader

variable {o : ReadingContext} {r r' : MessageReader o} {rest : Octets} {m : MessageMetadata}

/-! ## Requests -/

/-- What a caller may ask of a reader. -/
inductive Request
  /-- At most `n` octets of the data. -/
  | read (n : Nat)
  | finish

/-- The octets that a request gives out, and the reader behind it. -/
def serveOne (r : MessageReader o) : Request → Octets × MessageReader o
  | .read n => (given (r.read n).1, (r.read n).2)
  | .finish => ([], r.finish.2)

/-- The octets that requests give out one after the other, and the reader behind them. -/
def serve (r : MessageReader o) : List Request → Octets × MessageReader o
  | [] => ([], r)
  | request :: requests =>
    ((r.serveOne request).1 ++ ((r.serveOne request).2.serve requests).1,
      ((r.serveOne request).2.serve requests).2)

/-! ## Going on and giving out -/

theorem settle_of_settle (e : r.settle = (.ok (), r')) : r'.settle = (.ok (), r') := by
  by_cases hl : r'.literal = []
  · exact settle_of_frames hl ((settle_eq_ok e).2.resolve_left (not_not.mpr hl))
  · rw [MessageReader.settle, if_pos hl]

theorem release_release (r : MessageReader o) (a b : Nat) :
    (r.release a).release b = r.release (a + b) := by
  simp only [release, List.drop_drop, Correlation.update_update, List.take_add]

theorem release_of_le {n : Nat} (h : r.literal.length ≤ n) :
    r.release n = r.release r.literal.length := by
  simp only [release, List.take_of_length_le h, List.drop_of_length_le h, List.take_length,
    List.drop_length]

theorem finish_of_finished (hp : r.poisoned = false) (hf : r.finished = some m) :
    r.finish = (.ok m, r) := by
  simp [MessageReader.finish, hp, hf]

theorem finish_of_literal (hp : r.poisoned = false) (hf : r.finished = none)
    (hs : r.settle = (.ok (), r')) (hl : r'.literal ≠ []) : r.finish = (.error .incomplete, r') := by
  by_cases h : r.literal = []
  · simp [MessageReader.finish, hp, hf, h, hs, hl]
  · rw [MessageReader.settle, if_pos h] at hs
    cases hs
    simp [MessageReader.finish, hp, hf, h]

theorem finish_of_settle (hp : r.poisoned = false) (hf : r.finished = none)
    (hs : r.settle = (.ok (), r')) (hl : r'.literal = []) :
    r.finish = (.ok ⟨r'.metadata.roots⟩,
      { r' with metadata := .empty, finished := some ⟨r'.metadata.roots⟩ }) := by
  obtain ⟨-, hstop⟩ := settle_eq_ok hs
  have hframes : r'.frames = [] := hstop.resolve_left (not_not.mpr hl)
  have h : r.literal = [] := by
    by_contra h
    rw [MessageReader.settle, if_pos h] at hs
    cases hs
    exact h hl
  simp [MessageReader.finish, hp, hf, h, hs, hl, hframes, MetadataBuilder.finish]

/-! ## What is left -/

/-- What a reader gives when everything is read in the amounts it has ready and then finished: the data
that is left, and the metadata behind it. -/
inductive Promises : MessageReader o → Octets → MessageMetadata → Prop
  | done {r r' : MessageReader o} {m : MessageMetadata} (hp : r.poisoned = false)
      (hs : r.settle = (.ok (), r')) (hl : r'.literal = []) (hm : r'.finish.1 = .ok m) : Promises r [] m
  /-- A reader that still has data has not given out its metadata. -/
  | more {r r' : MessageReader o} {behind : Octets} {m : MessageMetadata} (hp : r.poisoned = false)
      (hf : r.finished = none) (hs : r.settle = (.ok (), r')) (hl : r'.literal ≠ [])
      (h : Promises (r'.release r'.literal.length) behind m) : Promises r (r'.literal ++ behind) m

namespace Promises

theorem of_readAll {last : MessageReader o} (hf : r.finished = none)
    (e : r.readAll = (rest, .ok (), last)) (hm : last.finish.1 = .ok m) : r.Promises rest m := by
  fun_induction MessageReader.readAll r generalizing rest last with
  | case1 r hp => cases e
  | case2 r hp error r' hs => cases e
  | case3 r hp r' hs hl =>
    cases e
    exact .done (by simpa using hp) hs hl hm
  | case4 r hp r' hs hl behind result last' hr ih =>
    cases e
    have hfinished : (r'.release r'.literal.length).finished = none := (settle_eq_ok hs).1.2.trans hf
    exact .more (by simpa using hp) hf hs hl (ih hfinished hr hm)

theorem of_literal {behind : Octets} (hp : r.poisoned = false) (hf : r.finished = none)
    (hl : r.literal ≠ []) (h : (r.release r.literal.length).Promises behind m) :
    r.Promises (r.literal ++ behind) m :=
  .more hp hf (by rw [MessageReader.settle, if_pos hl]) hl h

/-- The promise is kept where some of the octets that are ready are given out. -/
theorem release {behind : Octets} (hp : r.poisoned = false) (hf : r.finished = none)
    (h : (r.release r.literal.length).Promises behind m) (n : Nat) :
    (r.release n).Promises (r.literal.drop n ++ behind) m := by
  by_cases hn : n < r.literal.length
  · have hl : (r.release n).literal = r.literal.drop n := rfl
    have hlength : n + (r.release n).literal.length = r.literal.length := by
      rw [hl, List.length_drop]
      omega
    refine of_literal (r := r.release n) hp hf (by simpa [hl] using hn) ?_
    rwa [release_release, hlength]
  · have hn : r.literal.length ≤ n := Nat.le_of_not_lt hn
    rwa [release_of_le hn, List.drop_of_length_le hn, List.nil_append]

/-- What a reading request gives: the next octets, and none only where none are left. -/
theorem read (h : r.Promises rest m) (n : Nat) : ∃ piece behind, (r.read n).1 = .ok piece ∧
    rest = piece ++ behind ∧ piece.length ≤ n ∧ (0 < n → (piece = [] ↔ rest = [])) ∧
    (r.read n).2.Promises behind m := by
  rcases Nat.eq_zero_or_pos n with rfl | hn
  · have hp : r.poisoned = false := by cases h <;> assumption
    have e : r.read 0 = (.ok [], r) := by simp [MessageReader.read, hp]
    rw [e]
    exact ⟨[], rest, rfl, rfl, Nat.le_refl 0, fun h => absurd h (Nat.lt_irrefl 0), h⟩
  · cases h with
    | @done _ r' _ hp hs hl hm =>
      have e : r.read n = (.ok [], r') := by simp [MessageReader.read, hp, hs, hl, Nat.ne_of_gt hn]
      have hp' : r'.poisoned = false := (settle_eq_ok hs).1.1.trans hp
      rw [e]
      exact ⟨[], [], rfl, rfl, Nat.zero_le n, fun _ => Iff.rfl, .done hp' (settle_of_settle hs) hl hm⟩
    | @more _ r' behind _ hp hf hs hl h =>
      have e : r.read n = (.ok (r'.literal.take n), r'.release n) := by
        simp [MessageReader.read, hp, hs, hl, Nat.ne_of_gt hn]
      obtain ⟨hp', hf'⟩ := (settle_eq_ok hs).1
      rw [e]
      refine ⟨r'.literal.take n, r'.literal.drop n ++ behind, rfl, ?_, List.length_take_le n _, ?_,
        h.release (hp'.trans hp) (hf'.trans hf) n⟩
      · rw [← List.append_assoc, List.take_append_drop]
      · simp [hl, Nat.ne_of_gt hn]

/-- What a finishing request gives: the metadata where no data is left, and nothing before. -/
theorem finish (h : r.Promises rest m) :
    r.finish.1 = (if rest = [] then .ok m else .error .incomplete) ∧ r.finish.2.Promises rest m := by
  cases h with
  | @done _ r' _ hp hs hl hm =>
    obtain ⟨⟨hp', hf'⟩, hstop⟩ := settle_eq_ok hs
    rw [hp] at hp'
    cases hf : r.finished with
    | some m' =>
      rw [finish_of_finished hp' (hf'.trans hf)] at hm
      cases hm
      rw [finish_of_finished hp hf]
      exact ⟨rfl, .done hp hs hl (by rw [finish_of_finished hp' (hf'.trans hf)])⟩
    | none =>
      have hframes : r'.frames = [] := hstop.resolve_left (not_not.mpr hl)
      rw [finish_of_frames hp' (hf'.trans hf) hl hframes] at hm
      cases hm
      rw [finish_of_settle hp hf hs hl]
      refine ⟨rfl, .done hp' (settle_of_frames hl hframes) hl ?_⟩
      simp [MessageReader.finish, hp']
  | @more _ r' behind _ hp hf hs hl h =>
    obtain ⟨hp', hf'⟩ := (settle_eq_ok hs).1
    rw [finish_of_literal hp hf hs hl]
    exact ⟨by simp [hl], .of_literal (hp'.trans hp) (hf'.trans hf) hl h⟩

/-- **Any requests.** What was given out and what is left are the data, and the metadata is the same. -/
theorem serve (h : r.Promises rest m) (requests : List Request) :
    ∃ behind, rest = (r.serve requests).1 ++ behind ∧ (r.serve requests).2.Promises behind m := by
  induction requests generalizing r rest with
  | nil => exact ⟨rest, rfl, h⟩
  | cons request requests ih =>
    cases request with
    | read n =>
      obtain ⟨piece, behind, e, rfl, -, -, hread⟩ := h.read n
      obtain ⟨left, rfl, hleft⟩ := ih hread
      refine ⟨left, ?_, hleft⟩
      simp [MessageReader.serve, serveOne, e, given]
    | finish => exact ih h.finish.2

end Promises

/-- A reader that was opened for a message promises what reading the whole message gives. -/
theorem promises_of_readMessage {message data : Octets} (e : readMessage o message = .ok (data, m)) :
    ∃ r, ofReader o (.ofOctets message) = .ok r ∧ r.Promises data m := by
  obtain ⟨r, hr, e⟩ := Except.bind_eq_ok.mp e
  refine ⟨r, hr, ?_⟩
  have hfinished : r.finished = none := by
    have hsource : ofSource o (.ofContent o message) = .ok r := hr
    rw [ofSource_eq] at hsource
    split at hsource
    · next r' hs =>
      cases hsource
      exact (settle_eq_ok hs).1.2
    · cases hsource
  split at e
  · cases e
  · next octets last hread =>
    obtain ⟨m', hm, e⟩ := Except.bind_eq_ok.mp e
    cases e
    exact .of_readAll hfinished hread hm

end MessageReader

open MessageReader in
/-- **No request makes a difference.** Where reading a whole message gives some data and metadata, a
reader of it can be opened, and after any requests to it

* what was given out is the beginning of the data;
* any amount is read on without a failure, gives no more than was asked for and the data from there on,
  and gives nothing only where all data was given out;
* finishing gives the metadata where all data was given out, however often it is asked for, and
  otherwise says that the data is incomplete. -/
theorem readMessage_of_requests {o : ReadingContext} {message data : Octets} {m : MessageMetadata}
    (e : readMessage o message = .ok (data, m)) :
    ∃ r, ofReader o (.ofOctets message) = .ok r ∧ ∀ requests : List Request,
      let (out, r) := r.serve requests
      out <+: data ∧
      (∀ n, ∃ piece, (r.read n).1 = .ok piece ∧ out ++ piece <+: data ∧ piece.length ≤ n ∧
        (0 < n → (piece = [] ↔ out = data))) ∧
      r.finish.1 = if out = data then .ok m else .error .incomplete := by
  obtain ⟨r, hr, h⟩ := promises_of_readMessage e
  refine ⟨r, hr, fun requests => ?_⟩
  obtain ⟨behind, hdata, hbehind⟩ := h.serve requests
  have hrest : behind = [] ↔ (r.serve requests).1 = data := by
    rw [hdata]
    exact List.self_eq_append_right.symm
  refine ⟨⟨behind, hdata.symm⟩, fun n => ?_, ?_⟩
  · obtain ⟨piece, left, hread, hpiece, hlength, hempty, -⟩ := hbehind.read n
    refine ⟨piece, hread, ⟨left, ?_⟩, hlength, fun hn => (hempty hn).trans hrest⟩
    rw [hdata, hpiece, List.append_assoc]
  · rw [hbehind.finish.1]
    simp only [hrest]

/-- Two octets inside compressed data. -/
def compressedOctets : Octets := [0xC8, 11, 0, 0xCB, 8, 0x62, 0, 0, 0, 0, 0, 0x68, 0x69]

open MessageReader in
/-- They may be asked for one by one, with finishing requests that are too early in between. -/
theorem readMessage_of_requests_early :
    ∃ m r, readMessage .keyless compressedOctets = .ok ([0x68, 0x69], m) ∧
      ofReader .keyless (.ofOctets compressedOctets) = .ok r ∧
      (r.serve [.finish, .read 1, .finish]).1 <+: [0x68, 0x69] ∧
      (r.serve [.finish, .read 1, .finish]).2.finish.1 =
        if (r.serve [.finish, .read 1, .finish]).1 = [0x68, 0x69] then .ok m
        else .error .incomplete := by
  have hopen : (start .keyless (.ofContent .keyless compressedOctets)).settle = (.ok (), _) :=
    (settle_of_step rfl rfl).trans
      ((settle_of_step rfl rfl).trans (by rw [MessageReader.settle, if_pos (by decide)]))
  -- behind the data both layers end
  have hall := readAll_of_more rfl (settle_of_settle hopen) (by decide) (readAll_of_done rfl
    ((settle_of_step rfl rfl).trans ((settle_of_step rfl rfl).trans (settle_of_frames rfl rfl))) rfl)
  have hread := readMessage_of_readAll hopen hall (congrArg Prod.fst (finish_of_frames rfl rfl rfl rfl))
  obtain ⟨r, hr, hrequests⟩ := readMessage_of_requests hread
  obtain ⟨hout, -, hfinish⟩ := hrequests [.finish, .read 1, .finish]
  exact ⟨_, r, hread, hr, hout, hfinish⟩

end OpenPGP
