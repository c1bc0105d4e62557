import OpenPGP.Framing.Progress
import OpenPGP.Proofs.Wire
/-!
# Delivery does not matter

A source gives its octets in pieces of any sizes, interrupted any number of times, and may fail at a
position for good. Headers, continuation lengths and bodies are read in three ways, an octet at a time,
exactly so many and at most so many, and each of them handles short answers, the end and failures by
itself. They have in common that they ask once and report a failure: as it is, but for the complaint of
a source that it was to go on, which inside a body of known length is reported as an end of the body.

`Source.Agrees` puts a source beside one with the same octets that does not fail. Reading a packet off
both comes to the same thing, or the failure of the first is reported (`Framed.Follows`); from one packet
to the next the sources still agree, so the same is true of everything that is read.

Results:
* `Source.Agrees.pull`: asking two sources that agree.
* `Framed.follows_pull_bind`: a read that asks and reports failures.
* `PacketReader.follows_packet`: one packet.
* `PacketReader.run_agrees`: all packets.
* `PacketReader.run_of_delivers`, `PacketReader.run_of_failsBehind`: sources in other pieces, and failing ones.
* `PacketReader.run_of_delivery`: a source in pieces gives what the whole string gives, and one that
  fails gives the beginning of it and then a report of the failure.
-/
namespace OpenPGP

namespace Source

/-! ## Failing sources -/

/-- A source will deliver exactly some octets and then fail, with one failure for ever. -/
def FailsBehind (s : Source) (octets : Octets) (failure : SourceFailure) : Prop :=
  ∃ ds behind, s.deliveries = ds ++ .failed failure :: behind ∧ octetsOf ds = octets ∧
    ∀ failure, .failed failure ∉ ds

theorem octetsOf_append {ds : List Delivery} (h : ∀ failure, .failed failure ∉ ds) (ds' : List Delivery) :
    octetsOf (ds ++ ds') = octetsOf ds ++ octetsOf ds' := by
  induction ds with
  | nil => rfl
  | cons d ds ih =>
    have ih := ih fun r hr => h r (List.mem_cons_of_mem _ hr)
    cases d with
    | octets piece => rw [List.cons_append, octetsOf, octetsOf, ih, List.append_assoc]
    | interrupted => exact ih
    | failed r => exact absurd List.mem_cons_self (h r)

theorem FailsBehind.octets_eq {s : Source} {octets : Octets} {failure : SourceFailure}
    (h : s.FailsBehind octets failure) : s.octets = octets := by
  obtain ⟨ds, behind, hs, rfl, hok⟩ := h
  rw [Source.octets, hs, octetsOf_append hok, octetsOf, List.append_nil]

/-- Deliveries in front of a failure give what is asked for, or all there is and then the failure. -/
theorem pullFrom_failing {ds : List Delivery} (h : ∀ failure, .failed failure ∉ ds) (n : Nat)
    (failure : SourceFailure) (behind : List Delivery) :
    (n ≤ (octetsOf ds).length ∧ ∃ ds', pullFrom n (ds ++ .failed failure :: behind) =
        ((octetsOf ds).take n, .full, ds' ++ .failed failure :: behind) ∧
      octetsOf ds' = (octetsOf ds).drop n ∧ ∀ failure, .failed failure ∉ ds') ∨
    pullFrom n (ds ++ .failed failure :: behind) =
      (octetsOf ds, .failed failure, .failed failure :: behind) := by
  fun_induction pullFrom n ds with
  | case1 ds => exact .inl ⟨Nat.zero_le _, ds, by simp [pullFrom], rfl, h⟩
  | case2 n => exact .inr rfl
  | case3 n ds ih =>
    rw [List.cons_append, pullFrom]
    exact ih fun r hr => h r (List.mem_cons_of_mem _ hr)
  | case4 n r ds => exact absurd List.mem_cons_self (h r)
  | case5 n piece ds hd later stop rest e ih =>
    have hlen : piece.length ≤ n + 1 := List.drop_eq_nil_iff.mp hd
    rw [List.cons_append, pullFrom, hd]
    rcases ih fun r hr => h r (List.mem_cons_of_mem _ hr) with ⟨hn, ds', hpull, hleft, hok⟩ | hpull
    · refine .inl ⟨?_, ds', ?_, ?_, hok⟩
      · rw [octetsOf, List.length_append]
        omega
      · simp only [hpull, octetsOf]
        rw [List.take_append, List.take_of_length_le hlen]
      · rw [hleft, octetsOf, List.drop_append, hd, List.nil_append]
    · refine .inr ?_
      simp only [hpull, octetsOf]
  | case6 n piece ds hd =>
    have hlen : n + 1 < piece.length := by
      refine Nat.lt_of_not_le fun hle => ?_
      exact absurd (List.drop_eq_nil_iff.mpr hle) (by assumption)
    refine .inl ⟨?_, .octets (piece.drop (n + 1)) :: ds, ?_, ?_, fun r hr => h r ?_⟩
    · rw [octetsOf, List.length_append]
      omega
    · rw [List.cons_append, pullFrom]
      split
      · next hnil => exact absurd hnil (by assumption)
      · rw [octetsOf, List.take_append_of_le_length (Nat.le_of_lt hlen)]
        rfl
    · rw [octetsOf, octetsOf, List.drop_append_of_le_length (Nat.le_of_lt hlen)]
    · simpa using hr

/-- What is asked for comes, or what there is and then the failure. -/
theorem FailsBehind.pull {s : Source} {octets : Octets} {failure : SourceFailure}
    (h : s.FailsBehind octets failure) (n : Nat) :
    (n ≤ octets.length ∧ ∃ s', s.pull n = (octets.take n, .full, s') ∧
      s'.FailsBehind (octets.drop n) failure) ∨
    ∃ s', s.pull n = (octets, .failed failure, s') := by
  obtain ⟨ds, behind, hs, rfl, hok⟩ := h
  unfold Source.pull
  rw [hs]
  rcases pullFrom_failing hok n failure behind with ⟨hn, ds', hpull, hleft, hok'⟩ | hpull
  · rw [hpull]
    exact .inl ⟨hn, _, rfl, ds', behind, rfl, hleft, hok'⟩
  · rw [hpull]
    exact .inr ⟨_, rfl⟩

/-! ## Deliveries in pieces -/

theorem not_failed_piecewise (octets : Octets) (chunk : Option Nat) (interrupted : Bool)
    (failure : SourceFailure) : .failed failure ∉ piecewise octets chunk interrupted := by
  unfold piecewise
  cases interrupted <;> simp

theorem octetsOf_piecewise (octets : Octets) {chunk : Option Nat} (h : chunk ≠ some 0)
    (interrupted : Bool) : octetsOf (piecewise octets chunk interrupted) = octets := by
  have hpieces (pieces : List Octets) : octetsOf ((pieces.flatMap fun piece =>
      (if interrupted then [.interrupted] else []) ++ [.octets piece]) ++
        if interrupted then [.interrupted] else []) = pieces.flatten := by
    induction pieces with
    | nil => cases interrupted <;> rfl
    | cons piece pieces ih =>
      rw [List.flatMap_cons, List.flatten_cons, ← ih]
      cases interrupted <;> simp [octetsOf]
  rw [piecewise, hpieces]
  cases chunk with
  | none => simp
  | some size =>
    exact Octets.flatten_pieces (Nat.pos_of_ne_zero fun e => h (congrArg some e)) octets

theorem delivers_delivering (octets : Octets) {chunk : Option Nat} (h : chunk ≠ some 0)
    (interrupted : Bool) : (delivering octets chunk interrupted none).Delivers octets where
  octets_eq := octetsOf_piecewise octets h interrupted
  not_failed := not_failed_piecewise octets chunk interrupted

theorem failsBehind_delivering {octets : Octets} {chunk : Option Nat} (h : chunk ≠ some 0)
    (interrupted : Bool) {position : Nat} (hp : position ≤ octets.length)
    (failure : SourceFailure) :
    (delivering octets chunk interrupted (some (position, failure))).FailsBehind (octets.take position)
      failure := by
  refine ⟨piecewise (octets.take position) chunk interrupted, [], ?_, octetsOf_piecewise _ h _,
    not_failed_piecewise _ _ _⟩
  rw [delivering, if_pos hp]

/-! ## Two sources -/

/-- A failure and the octets that are not delivered because of it. -/
structure Fault where
  failure : SourceFailure
  behind : Octets

/-- A source beside one that does not fail: it delivers the same octets, or some of them and then a
failure. -/
inductive Agrees : Option Fault → Source → Source → Prop
  | whole {s t : Source} {octets : Octets} (hs : s.Delivers octets) (ht : t.Delivers octets) :
      Agrees none s t
  | failing {s t : Source} {octets : Octets} {fault : Fault} (hs : s.FailsBehind octets fault.failure)
      (ht : t.Delivers (octets ++ fault.behind)) : Agrees (some fault) s t

/-- Asking both gives the same, and they still agree, or the failure is there. -/
theorem Agrees.pull {fault : Option Fault} {s t : Source} (h : Agrees fault s t) (n : Nat) :
    (∃ octets stop s' t', s.pull n = (octets, stop, s') ∧ t.pull n = (octets, stop, t') ∧
      Agrees fault s' t') ∨
    ∃ octets f s', fault = some f ∧ s.pull n = (octets, .failed f.failure, s') := by
  cases h with
  | whole hs ht =>
    obtain ⟨s', hs', hds⟩ := hs.pull n
    obtain ⟨t', ht', hdt⟩ := ht.pull n
    exact .inl ⟨_, _, s', t', hs', ht', .whole hds hdt⟩
  | @failing _ _ octets fault hs ht =>
    rcases hs.pull n with ⟨hn, s', hs', hfs⟩ | ⟨s', hs'⟩
    · obtain ⟨t', ht', hdt⟩ := ht.pull n
      rw [List.take_append_of_le_length hn, List.length_append, if_pos (by omega)] at ht'
      rw [List.drop_append_of_le_length hn] at hdt
      exact .inl ⟨_, _, s', t', hs', ht', .failing hfs hdt⟩
    · exact .inr ⟨octets, fault, s', rfl, hs'⟩

end Source

open Source

/-! ## Reads -/

namespace Framed

variable {α β : Type} {fault : Option Fault}

/-- What a read comes to beside the same read off a source that does not fail: the same, or a report of
the failure. -/
inductive SameRead (fault : Option Fault) :
    EStateM.Result PacketError Source α → EStateM.Result PacketError Source α → Prop
  | ok {a : α} {s t : Source} (h : Agrees fault s t) : SameRead fault (.ok a s) (.ok a t)
  | error {e : PacketError} {s t : Source} (h : Agrees fault s t) :
      SameRead fault (.error e s) (.error e t)
  | reported {f : Fault} {e : PacketError} {s : Source} {whole : EStateM.Result PacketError Source α}
      (h : fault = some f) (he : IsReport f.failure e) : SameRead fault (.error e s) whole

/-- A read that depends on nothing but the octets, and reports a failure. -/
def Follows (fault : Option Fault) (m : Framed α) : Prop :=
  ∀ s t, Agrees fault s t → SameRead fault (m s) (m t)

theorem follows_pure (a : α) : Follows fault (pure a) := fun _ _ h => .ok h

theorem follows_throw (e : PacketError) : Follows fault (throw e : Framed α) := fun _ _ h => .error h

theorem Follows.bind {m : Framed α} {f : α → Framed β} (hm : Follows fault m)
    (hf : ∀ a, Follows fault (f a)) : Follows fault (m >>= f) := by
  intro s t h
  have hread := hm s t h
  simp only [Bind.bind, EStateM.bind]
  generalize m s = x at hread
  generalize m t = y at hread
  cases hread with
  | ok h' => exact hf _ _ _ h'
  | error h' => exact .error h'
  | reported h' he => exact .reported h' he

/-- A read that asks once and reports a failure. -/
theorem follows_pull_bind (n : Nat) {f : Octets × Stop → Framed α}
    (hfail : ∀ octets failure, ∃ e, IsReport failure e ∧ f (octets, .failed failure) = throw e)
    (hf : ∀ answer, Follows fault (f answer)) : Follows fault (Framed.pull n >>= f) := by
  intro s t h
  simp only [Bind.bind, EStateM.bind, Framed.pull]
  rcases h.pull n with ⟨octets, stop, s', t', hs, ht, hagree⟩ | ⟨octets, f, s', hfault, hs⟩
  · rw [hs, ht]
    exact hf (octets, stop) s' t' hagree
  · obtain ⟨e, he, hthrow⟩ := hfail octets f.failure
    rw [hs]
    simp only [hthrow]
    exact .reported hfault he

theorem compositional_follows : Compositional fun _ => Follows fault where
  pure := follows_pure
  throw _ := follows_throw _
  bind := Follows.bind
  pull_bind := follows_pull_bind

theorem octet?_ne_none {s s' : Source} {octets : Octets} {failure : SourceFailure}
    (h : s.FailsBehind octets failure) : octet? s ≠ .ok none s' := by
  intro hoctet
  obtain ⟨answer, s₁, hpull, hoctet⟩ := bind_eq_ok.mp hoctet
  rcases h.pull 1 with ⟨hn, s₂, hs, -⟩ | ⟨s₂, hs⟩ <;> rw [Framed.pull, hs] at hpull <;> cases hpull
  · cases octets with
    | nil => exact absurd hn (by decide)
    | cons b octets => cases hoctet
  · cases hoctet

theorem octet_lt {part : Part} {s s' : Source} {b : UInt8} (h : octet part s = .ok b s') :
    s'.octets.length < s.octets.length := by
  obtain ⟨answer, s₁, hanswer, h⟩ := bind_eq_ok.mp h
  cases answer with
  | none => cases h
  | some first =>
    cases h
    exact octet?_eq hanswer

end Framed

open Framed

variable {fault : Option Fault}

/-! ## Headers -/

namespace BodyLength

theorem length_newFormat_lt {s s' : Source} {length : BodyLength} (h : newFormat s = .ok length s') :
    s'.octets.length < s.octets.length := by
  obtain ⟨first, s₁, hfirst, h⟩ := bind_eq_ok.mp h
  refine Nat.lt_of_le_of_lt ?_ (octet_lt hfirst)
  split at h
  · cases h
    exact Nat.le_refl _
  split at h
  · exact ((compositional_shrinking.octet _).bind fun _ => shrinking_pure _) _ _ _ h
  split at h
  · cases h
    exact Nat.le_refl _
  · exact ((compositional_shrinking.fixedWidth _ _).bind fun _ => shrinking_pure _) _ _ _ h

end BodyLength

namespace PacketHeader

theorem read_ne_none {s s' : Source} {octets : Octets} {failure : SourceFailure}
    (h : s.FailsBehind octets failure) : read s ≠ .ok none s' := by
  intro hread
  obtain ⟨first, s₁, hfirst, hread⟩ := bind_eq_ok.mp hread
  cases first with
  | none => exact octet?_ne_none h hfirst
  | some first =>
    obtain ⟨header, s₂, -, hread⟩ := bind_eq_ok.mp hread
    cases hread

end PacketHeader

/-! ## Bodies -/

namespace PacketBody

/-- The bound on the number of chunks is never reached: every length takes an octet. -/
theorem parts_of_lt (limit : UInt64) {s : Source} {size size' : Nat} (h : s.octets.length < size)
    (h' : s.octets.length < size') (before : Octets) (length : Nat) :
    parts limit size before length s = parts limit size' before length s := by
  induction size generalizing size' s before length with
  | zero => omega
  | succ size ih =>
    obtain ⟨size', rfl⟩ : ∃ k, size' = k + 1 := ⟨size' - 1, by omega⟩
    simp only [parts, Bind.bind, EStateM.bind]
    cases hc : chunk limit before.length length s with
    | error e s₁ => rfl
    | ok octets s₁ =>
      have h₁ := shrinking_chunk _ _ _ _ _ _ hc
      dsimp only
      cases hl : BodyLength.newFormat s₁ with
      | error e s₂ => rfl
      | ok l s₂ =>
        have h₂ := BodyLength.length_newFormat_lt hl
        cases l with
        | partialLength length => exact ih (by omega) (by omega) _ _
        | definite length => rfl
        | indeterminate => rfl

theorem follows_read (limit : UInt64) (length : BodyLength) : Follows fault (read limit length) := by
  unfold read
  split
  · exact compositional_follows.chunk (fun _ _ => follows_throw _) _ _ _
  · next length =>
    intro s t h
    have hbound (source : Source) : (do parts limit ((← get).octets.length + 1) [] length) source =
        parts limit (source.octets.length + 1) [] length source := rfl
    have hs : s.octets.length < s.octets.length + t.octets.length + 1 := by omega
    have ht : t.octets.length < s.octets.length + t.octets.length + 1 := by omega
    rw [hbound, hbound, parts_of_lt limit (Nat.lt_succ_self _) hs, parts_of_lt limit (Nat.lt_succ_self _) ht]
    exact compositional_follows.parts (fun _ _ => follows_throw _) _ _ _ _ s t h
  · exact compositional_follows.rest (fun _ _ => follows_throw _) limit

end PacketBody

/-! ## Packets -/

namespace PacketReader

/-- **One packet.** -/
theorem follows_packet (limit : UInt64) : Follows fault (packet limit) := by
  refine compositional_follows.header.bind fun header => ?_
  split
  · exact follows_pure _
  · refine (PacketBody.follows_read _ _).bind fun body => ?_
    split
    · exact follows_pure _
    · exact follows_throw _

theorem packet_ne_none {limit : UInt64} {s s' : Source} {octets : Octets} {failure : SourceFailure}
    (h : s.FailsBehind octets failure) : packet limit s ≠ .ok none s' := by
  intro hpacket
  obtain ⟨header, s₁, hheader, hpacket⟩ := bind_eq_ok.mp hpacket
  cases header with
  | none => exact PacketHeader.read_ne_none h hheader
  | some header =>
    obtain ⟨body, s₂, -, hpacket⟩ := bind_eq_ok.mp hpacket
    cases hdecode : Packet.decode header.tag body <;> rw [hdecode] at hpacket <;> cases hpacket

/-! ## Runs -/

/-- The packets up to the end or the first failure, which of the two it was, and the reader behind it. -/
def run (r : PacketReader) : List Packet × Except PacketError Unit × PacketReader :=
  match _next : r.next with
  | (.ok (some packet), rest) =>
    let (packets, result, last) := rest.run
    (packet :: packets, result, last)
  | (.ok none, rest) => ([], .ok (), rest)
  | (.error error, rest) => ([], .error error, rest)
termination_by r.source.octets.length
decreasing_by
  have hless := length_next_lt (congrArg Prod.fst _next)
  rwa [_next] at hless

theorem run_of_next_some {r rest : PacketReader} {p : Packet} (h : r.next = (.ok (some p), rest)) :
    r.run = (p :: rest.run.1, rest.run.2) := by
  rw [run.eq_def]
  split
  · next h' =>
    cases h.symm.trans h'
    rfl
  · next h' => cases h.symm.trans h'
  · next h' => cases h.symm.trans h'

theorem run_of_next_none {r rest : PacketReader} (h : r.next = (.ok none, rest)) :
    r.run = ([], .ok (), rest) := by
  rw [run.eq_def]
  split
  · next h' => cases h.symm.trans h'
  · next h' =>
    cases h.symm.trans h'
    rfl
  · next h' => cases h.symm.trans h'

theorem run_of_next_error {r rest : PacketReader} {e : PacketError} (h : r.next = (.error e, rest)) :
    r.run = ([], .error e, rest) := by
  rw [run.eq_def]
  split
  · next h' => cases h.symm.trans h'
  · next h' => cases h.symm.trans h'
  · next h' =>
    cases h.symm.trans h'
    rfl

/-- What a run comes to beside the run over a source that does not fail: the same, though only a source
that does not fail ends, or the beginning of it and then a report of the failure. -/
inductive SameRun (fault : Option Fault) : List Packet × Except PacketError Unit × PacketReader →
    List Packet × Except PacketError Unit × PacketReader → Prop
  | same {packets : List Packet} {result : Except PacketError Unit} {r r' : PacketReader}
      (h : Agrees fault r.source r'.source) (hend : fault.isSome = true → result ≠ .ok ()) :
      SameRun fault (packets, result, r) (packets, result, r')
  | reported {f : Fault} {e : PacketError} {packets : List Packet} {r : PacketReader}
      {whole : List Packet × Except PacketError Unit × PacketReader} (h : fault = some f)
      (he : IsReport f.failure e) (hp : packets <+: whole.1) : SameRun fault (packets, .error e, r) whole

theorem SameRun.cons {fault : Option Fault}
    {x y : List Packet × Except PacketError Unit × PacketReader} (h : SameRun fault x y) (p : Packet) :
    SameRun fault (p :: x.1, x.2) (p :: y.1, y.2) := by
  cases h with
  | same h hend => exact .same h hend
  | reported h he hp => exact .reported h he (List.cons_prefix_cons.mpr ⟨rfl, hp⟩)

/-- **All packets.** -/
theorem run_agrees (limit : UInt64) {s t : Source} (h : Agrees fault s t) :
    SameRun fault (run ⟨s, limit⟩) (run ⟨t, limit⟩) := by
  -- induction on the octets that are left to the source that does not fail
  induction hn : t.octets.length using Nat.strongRecOn generalizing s t with
  | ind n ih =>
    subst hn
    have hread := follows_packet limit s t h
    cases hs : packet limit s with
    | error e s' =>
      rw [run_of_next_error (r := ⟨s, limit⟩) (by rw [next, hs])]
      rw [hs] at hread
      cases ht : packet limit t with
      | error e' t' =>
        rw [ht] at hread
        rw [run_of_next_error (r := ⟨t, limit⟩) (by rw [next, ht])]
        cases hread with
        | error h' => exact .same h' fun _ => nofun
        | reported h' he => exact .reported h' he (List.prefix_refl [])
      | ok p t' =>
        rw [ht] at hread
        cases hread with
        | reported h' he => exact .reported h' he List.nil_prefix
    | ok p s' =>
      rw [hs] at hread
      cases ht : packet limit t with
      | error e' t' => rw [ht] at hread; cases hread
      | ok p' t' =>
        rw [ht] at hread
        cases hread with
        | ok h' =>
          cases p with
          | none =>
            rw [run_of_next_none (r := ⟨s, limit⟩) (by rw [next, hs]),
              run_of_next_none (r := ⟨t, limit⟩) (by rw [next, ht])]
            refine .same h' fun hfault => ?_
            cases h with
            | whole => cases hfault
            | failing hf ht => exact absurd hs (packet_ne_none hf)
          | some p =>
            rw [run_of_next_some (r := ⟨s, limit⟩) (by rw [next, hs]),
              run_of_next_some (r := ⟨t, limit⟩) (by rw [next, ht])]
            exact (ih _ (length_packet_lt ht) h' rfl).cons p

/-- Two sources that deliver the same octets in other pieces. -/
theorem run_of_delivers {s t : Source} {octets : Octets} (hs : s.Delivers octets)
    (ht : t.Delivers octets) (limit : UInt64) : ∃ packets result last last',
      run ⟨s, limit⟩ = (packets, result, last) ∧ run ⟨t, limit⟩ = (packets, result, last') ∧
        last.source.octets = last'.source.octets := by
  have hrun := run_agrees limit (.whole hs ht)
  generalize run ⟨s, limit⟩ = x at hrun
  generalize run ⟨t, limit⟩ = y at hrun
  cases hrun with
  | same h hend =>
    cases h with
    | whole hs ht => exact ⟨_, _, _, _, rfl, rfl, hs.octets_eq.trans ht.octets_eq.symm⟩
  | reported h => cases h

/-- A source that fails, beside one that goes on. -/
theorem run_of_failsBehind {s t : Source} {octets behind : Octets}
    {failure : SourceFailure} (hs : s.FailsBehind octets failure) (ht : t.Delivers (octets ++ behind))
    (limit : UInt64) :
    (∃ before e last, before <+: (run ⟨t, limit⟩).1 ∧ IsReport failure e ∧
      run ⟨s, limit⟩ = (before, .error e, last)) ∨
    ∃ packets error last last', run ⟨t, limit⟩ = (packets, .error error, last') ∧
      run ⟨s, limit⟩ = (packets, .error error, last) ∧
      last.source.octets ++ behind = last'.source.octets := by
  have hagrees : Agrees (some ⟨failure, behind⟩) s t := .failing hs ht
  have hrun := run_agrees limit hagrees
  generalize run ⟨s, limit⟩ = x at hrun
  generalize run ⟨t, limit⟩ = y at hrun
  cases hrun with
  | @same packets result r r' h hend =>
    cases h with
    | failing hs ht =>
      cases result with
      | ok _ => exact absurd rfl (hend rfl)
      | error error =>
        refine .inr ⟨packets, error, r, r', rfl, rfl, ?_⟩
        rw [hs.octets_eq, ht.octets_eq]
  | reported h he hp =>
    cases h
    exact .inl ⟨_, _, _, hp, he, rfl⟩

-- A complaint inside a body is told like the end of the source there; any other failure is told as it is.
example : (next ⟨.delivering [0xCB, 8, 0x62, 0, 0, 0, 0, 0, 0x61, 0x62] none false
    (some (5, ⟨.unexpectedEnd, "early"⟩)), defaultLimit⟩).1 = .error (.truncated .packetBody) := rfl

end PacketReader

end OpenPGP
