import Coffer.Keyring.Channel
import Coffer.Proofs.Keyring.Response
import Mathlib.Tactic.IntervalCases
/-
  Responses are read by their grammar.

  * `Response.Frame` — the grammar: the bytes of one response, which depend on the request before it;
  * `Response.Fault` — bytes that begin no response, why, and what is left of them.

  A client tells a response exactly when the bytes begin with a frame of it (`decode_eq_frame_iff`), and
  it fails exactly at a fault (`decode_eq_failed_iff`).  Neither changes when more bytes arrive, nor does
  what the client remembers (`ClientCodec.decode_append`).
-/
namespace Coffer.Keyring

variable {whole b extra rest : Bytes} {op : Op} {r : Response} {e : SecretError}

/-! ## Secrets that are refused -/

/-- The secret behind a length that fits is refused when it is empty or breaks a line. -/
theorem passphraseFault?_eq_some_iff {secret : Bytes} (hfits : secret.length ≤ maxPassphrase) :
    passphraseFault? secret = some e ↔
      (secret = [] ∧ e = .badRequest "empty passphrase") ∨
      ((10 ∈ secret ∨ 13 ∈ secret) ∧ e = .forbiddenByte) := by
  rw [passphraseFault?, if_neg (Nat.not_lt.mpr hfits), ← any_isLineBreak_iff]
  rcases secret with _ | ⟨x, secret⟩
  · simp [eq_comm]
  · rcases (x :: secret).any isLineBreak with _ | _ <;> simp [eq_comm]

/-- **A secret is refused when its length is too large,** whatever follows, **or when it is all there and
    is no passphrase.** -/
theorem takeSecret_eq_failed_iff :
    takeSecret whole b = .failed e rest ↔
      (∃ size b', size.length = 4 ∧ b = size ++ b' ∧ maxPassphrase < bigEndian size ∧ e = .tooLarge ∧
        rest = whole) ∨
      ∃ size secret, Counts 4 size secret ∧ secret.length ≤ maxPassphrase ∧
        b = size ++ secret ++ rest ∧ passphraseFault? secret = some e := by
  constructor
  · intro h
    by_cases hlong : b.length < 4
    · rw [takeSecret, if_pos hlong] at h
      cases h
    · obtain ⟨size, b, hsize, rfl⟩ := exists_size hlong
      rw [takeSecret_append hsize] at h
      split_ifs at h with hlarge hshort
      · cases h
        exact .inl ⟨size, b, hsize, rfl, hlarge, rfl, rfl⟩
      · have hlength : (b.take (bigEndian size)).length = bigEndian size := by
          rw [List.length_take]
          omega
        refine .inr ⟨size, b.take (bigEndian size), ⟨hsize, hlength.symm⟩, by omega, ?_⟩
        split at h <;> cases h
        rename_i hrefused
        refine ⟨by rw [List.append_assoc, List.take_append_drop], ?_⟩
        exact Passphrase.ofBytes_eq_error_iff.mp hrefused
  · rintro (⟨size, b', hsize, rfl, hlarge, rfl, rfl⟩ | ⟨size, secret, ⟨hsize, hcount⟩, hfits, rfl, hfault⟩)
    · rw [takeSecret_append hsize, if_pos hlarge]
    · rw [List.append_assoc, takeSecret_append hsize, hcount, if_neg (by omega),
        if_neg (by rw [List.length_append]; omega), List.take_left, List.drop_left,
        Passphrase.ofBytes_eq_error_iff.mpr hfault]

/-! ## The grammar -/

/-- A byte that is a status is that status's. -/
theorem Status.byte_of_ofByte? {byte : UInt8} {s : Status} (h : Status.ofByte? byte = some s) :
    byte = s.byte := by
  apply UInt8.toNat_inj.mp
  rw [Status.ofByte?] at h
  generalize byte.toNat = n at h
  have hlt : n < 7 := (List.getElem?_eq_some_iff.mp h).1
  interval_cases n <;> cases h <;> rfl

namespace Response

/-- The frame of a response: a status alone; or, when a read is answered, the status `ok`, the length of
    the secret in four bytes and the secret. -/
inductive Frame (pending : Option Op) : Bytes → Response → Prop
  | plain {s : Status} : s ≠ .ok ∨ pending ≠ some .read → Frame pending [s.byte] ⟨s, none⟩
  | secret {size secret : Bytes} {p : Passphrase} : pending = some .read → Counts 4 size secret →
      secret.length ≤ 4096 → secret ≠ [] → (∀ x ∈ secret, x ≠ 10 ∧ x ≠ 13) → p.bytes = secret →
      Frame pending (0 :: (size ++ secret)) ⟨.ok, some p⟩

/-- Bytes that begin no response: the failure, and the bytes that are left.  A byte that is no status and
    a length that is too large are left where they are; a secret that is no passphrase is taken away. -/
inductive Fault (pending : Option Op) : Bytes → SecretError → Bytes → Prop
  | unknown {byte : UInt8} {b : Bytes} : Status.ofByte? byte = none →
      Fault pending (byte :: b) (unknownStatus byte) (byte :: b)
  | tooLong {size b : Bytes} : pending = some .read → size.length = 4 → 4096 < bigEndian size →
      Fault pending (0 :: (size ++ b)) .tooLarge (0 :: (size ++ b))
  | empty {size rest : Bytes} : pending = some .read → Counts 4 size [] →
      Fault pending (0 :: (size ++ rest)) (.badRequest "empty passphrase") rest
  | broken {size secret rest : Bytes} : pending = some .read → Counts 4 size secret →
      secret.length ≤ 4096 → 10 ∈ secret ∨ 13 ∈ secret →
      Fault pending (0 :: (size ++ secret ++ rest)) .forbiddenByte rest

/-- What is there of a response: nothing, no status, a status that brings nothing, or one that brings a
    secret and bytes behind it. -/
inductive Begun (pending : Option Op) : Bytes → Prop
  | nothing : Begun pending []
  | unknown {byte : UInt8} {b : Bytes} : Status.ofByte? byte = none → Begun pending (byte :: b)
  | plain {s : Status} {b : Bytes} : s ≠ .ok ∨ pending ≠ some .read → Begun pending (s.byte :: b)
  | secret {b : Bytes} : pending = some .read → Begun pending (0 :: b)

variable {pending : Option Op}

theorem begun (pending : Option Op) (b : Bytes) : Begun pending b := by
  rcases b with _ | ⟨byte, b⟩
  · exact .nothing
  · rcases hs : Status.ofByte? byte with _ | s
    · exact .unknown hs
    · rw [Status.byte_of_ofByte? hs]
      by_cases hplain : s ≠ .ok ∨ pending ≠ some .read
      · exact .plain hplain
      · obtain ⟨hok, hread⟩ := not_or.mp hplain
        rw [Decidable.not_not.mp hok]
        exact .secret (Decidable.not_not.mp hread)

theorem decode_of_unknown {byte : UInt8} (h : Status.ofByte? byte = none) (b : Bytes) :
    decode pending (byte :: b) = .failed (unknownStatus byte) (byte :: b) := by
  rw [decode, h]

/-- What happens once it is known that a secret follows. -/
theorem decode_of_read (h : pending = some .read) (b : Bytes) :
    decode pending (0 :: b) = match takeSecret (0 :: b) b with
      | .incomplete => .incomplete
      | .failed e left => .failed e left
      | .frame secret left => .frame ⟨.ok, some secret⟩ left := by
  have hstatus : Status.ofByte? 0 = some .ok := Status.ofByte?_byte .ok
  rw [h, decode, hstatus]
  rfl

/-! ## The decoder and the grammar -/

/-- **A response is told exactly when the bytes begin with a frame of it.** -/
theorem decode_eq_frame_iff :
    decode pending b = .frame r rest ↔ ∃ f, Frame pending f r ∧ b = f ++ rest := by
  constructor
  · intro h
    cases begun pending b with
    | nothing => cases h
    | unknown hs =>
      rw [decode_of_unknown hs] at h
      cases h
    | @plain s b hplain =>
      rw [decode_of_plain hplain] at h
      cases h
      exact ⟨[s.byte], .plain hplain, rfl⟩
    | @secret b hread =>
      rw [decode_of_read hread] at h
      rcases hsecret : takeSecret (0 :: b) b with _ | ⟨p, left⟩ | ⟨e, left⟩ <;> rw [hsecret] at h <;>
        cases h
      obtain ⟨size, hsize, rfl⟩ := takeSecret_eq_frame_iff.mp hsecret
      obtain ⟨hfits, hne, hline⟩ := p.rules
      exact ⟨_, .secret hread hsize hfits hne (fun x hx => isLineBreak_eq_false_iff.mp (hline x hx)) rfl,
        rfl⟩
  · rintro ⟨f, hf, rfl⟩
    cases hf with
    | plain hplain => exact decode_of_plain hplain rest
    | @secret size secret p hread hsize _ _ _ hp =>
      subst hp
      have htaken : takeSecret (0 :: (size ++ p.bytes ++ rest)) (size ++ p.bytes ++ rest) =
          .frame p rest := takeSecret_eq_frame_iff.mpr ⟨size, hsize, rfl⟩
      rw [List.cons_append, decode_of_read hread, htaken]

/-- **A client fails exactly at a fault.** -/
theorem decode_eq_failed_iff : decode pending b = .failed e rest ↔ Fault pending b e rest := by
  constructor
  · intro h
    cases begun pending b with
    | nothing => cases h
    | unknown hs =>
      rw [decode_of_unknown hs] at h
      cases h
      exact .unknown hs
    | plain hplain =>
      rw [decode_of_plain hplain] at h
      cases h
    | @secret b hread =>
      rw [decode_of_read hread] at h
      rcases hsecret : takeSecret (0 :: b) b with _ | ⟨p, left⟩ | ⟨e, left⟩ <;> rw [hsecret] at h <;>
        cases h
      rcases takeSecret_eq_failed_iff.mp hsecret with
        ⟨size, b', hsize, rfl, hlarge, rfl, rfl⟩ | ⟨size, secret, hsize, hfits, rfl, hfault⟩
      · exact .tooLong hread hsize hlarge
      · rcases (passphraseFault?_eq_some_iff hfits).mp hfault with ⟨rfl, rfl⟩ | ⟨hbreak, rfl⟩
        · rw [List.append_nil]
          exact .empty hread hsize
        · exact .broken hread hsize hfits hbreak
  · have hrefused : ∀ {b : Bytes}, pending = some .read → takeSecret (0 :: b) b = .failed e rest →
        decode pending (0 :: b) = .failed e rest := by
      intro b hread hfails
      rw [decode_of_read hread, hfails]
    intro h
    cases h with
    | unknown hs => exact decode_of_unknown hs _
    | tooLong hread hsize hlarge =>
      exact hrefused hread (takeSecret_eq_failed_iff.mpr (.inl ⟨_, _, hsize, rfl, hlarge, rfl, rfl⟩))
    | @empty size rest hread hsize =>
      exact hrefused hread (takeSecret_eq_failed_iff.mpr
        (.inr ⟨size, [], hsize, Nat.zero_le _, by rw [List.append_nil], rfl⟩))
    | broken hread hsize hfits hbreak =>
      exact hrefused hread (takeSecret_eq_failed_iff.mpr (.inr ⟨_, _, hsize, hfits, rfl,
        (passphraseFault?_eq_some_iff hfits).mpr (.inr ⟨hbreak, rfl⟩)⟩))

end Response

/-! ## The client's side of the wire -/

namespace ClientCodec

theorem fst_decode (c : ClientCodec) (b : Bytes) : (c.decode b).1 = Response.decode c.pending b := by
  rw [decode]
  rcases Response.decode c.pending b with _ | ⟨r, rest⟩ | ⟨e, rest⟩ <;> rfl

/-- A client that cannot tell anything yet remembers what it has asked for. -/
theorem decode_of_incomplete {c : ClientCodec} (h : Response.decode c.pending b = .incomplete) :
    c.decode b = (.incomplete, c) := by
  rw [decode, h]

theorem decode_of_frame {c : ClientCodec} (h : Response.decode c.pending b = .frame r rest) :
    c.decode b = (.frame r rest, fresh) := by
  rw [decode, h]

/-- **More bytes change neither what a client was told nor what it remembers.** -/
theorem decode_append {c : ClientCodec} (h : (c.decode b).1 ≠ .incomplete) (extra : Bytes) :
    c.decode (b ++ extra) = ((c.decode b).1.before extra, (c.decode b).2) := by
  rw [fst_decode] at h
  have hsteady := Response.steady_decode c.pending b extra h
  rw [decode, decode, hsteady]
  rcases hdecode : Response.decode c.pending b with _ | ⟨r, rest⟩ | ⟨e, rest⟩
  · exact absurd hdecode h
  · rfl
  · simp only [Decoded.before, List.length_append, Nat.add_lt_add_iff_right]

/-- **A front of a response is waited for to its end.** -/
theorem decode_of_cut (h : r.Answers op) (hcut : r.encode = b ++ extra) (hextra : extra ≠ []) :
    (ClientCodec.mk (some op)).decode b = (.incomplete, ⟨some op⟩) := by
  have hwhole := Response.decode_encode h []
  rw [List.append_nil, hcut] at hwhole
  exact decode_of_incomplete ((Response.steady_decode (some op)).incomplete_of_cut hwhole hextra)

/-- **Responses are read exactly, however they arrive.**  While a client cannot tell anything it takes
    nothing, and it waits for no more than the longest response; what it tells stays when more bytes
    arrive.  It tells a response exactly when the bytes begin with a frame of it, so that a status which
    brings no secret takes one byte and a secret has as many bytes as were announced; and it fails exactly
    at a fault, so that no secret is ever cut short.  What the holder answers to a request is read as it
    is, and none of the bytes behind it is taken. -/
theorem responses_are_read_exactly (c : ClientCodec) (b : Bytes) :
    ((c.decode b).1 = .incomplete →
      (c.decode b).2 = c ∧ (c.decode b).1.rest b = b ∧ b.length < 5 + 4096) ∧
    ((c.decode b).1 ≠ .incomplete →
      ∀ extra, c.decode (b ++ extra) = ((c.decode b).1.before extra, (c.decode b).2)) ∧
    (∀ r rest, (c.decode b).1 = .frame r rest ↔ ∃ f, Response.Frame c.pending f r ∧ b = f ++ rest) ∧
    (∀ e rest, (c.decode b).1 = .failed e rest ↔ Response.Fault c.pending b e rest) ∧
    (∀ op r, Response.Answers op r →
      (∀ rest, (ClientCodec.mk (some op)).decode (r.encode ++ rest) = (.frame r rest, fresh)) ∧
      ∀ front extra, r.encode = front ++ extra → extra ≠ [] →
        (ClientCodec.mk (some op)).decode front = (.incomplete, ⟨some op⟩)) ∧
    (∀ (s : Store) (r : Request) (d : Disk), Response.Answers r.op (s.answer r d).1) ∧
    ∀ (op : Op) (e : SecretError), Response.Answers op (.failed e.status) := by
  refine ⟨fun h => ?_, decode_append, fun r rest => ?_, fun e rest => ?_, fun op r h => ⟨fun rest => ?_, ?_⟩,
    Store.answers, fun op e => .failed e.status_ne_ok⟩
  · rw [fst_decode] at h
    have hdecode := decode_of_incomplete h
    rw [hdecode]
    exact ⟨rfl, rfl, Channel.length_lt_of_incomplete hdecode⟩
  · rw [fst_decode, Response.decode_eq_frame_iff]
  · rw [fst_decode, Response.decode_eq_failed_iff]
  · exact decode_of_frame (Response.decode_encode h rest)
  · intro front extra hcut hextra
    exact decode_of_cut h hcut hextra

/-- Seven bytes answer a read: three of them are waited for, all of them are its secret, and the byte
    behind them stays. -/
theorem responses_are_read_exactly_of_seven :
    let c := ClientCodec.mk (some .read)
    let secret := Passphrase.mk [112, 119] rfl
    [0, 0, 0].length < 5 + 4096 ∧ c.decode [0, 0, 0] = (.incomplete, c) ∧
      c.decode ([0, 0, 0, 0, 2, 112, 119] ++ [1]) = (.frame (.ofSecret secret) [1], fresh) := by
  intro c secret
  obtain ⟨hwhole, hfronts⟩ :=
    (responses_are_read_exactly c []).2.2.2.2.1 .read (.ofSecret secret) (.secret secret)
  have hbytes : (Response.ofSecret secret).encode = [0, 0, 0, 0, 2, 112, 119] := by decide
  rw [hbytes] at hwhole hfronts
  have hfront : c.decode [0, 0, 0] = (.incomplete, c) :=
    hfronts [0, 0, 0] [0, 2, 112, 119] rfl (List.cons_ne_nil _ _)
  have hframe : c.decode [0, 0, 0, 0, 2, 112, 119] = (.frame (.ofSecret secret) [], fresh) := hwhole []
  have hmore := (responses_are_read_exactly c [0, 0, 0, 0, 2, 112, 119]).2.1
    (by rw [hframe]; exact fun h => nomatch h) [1]
  rw [hframe] at hmore
  exact ⟨((responses_are_read_exactly c [0, 0, 0]).1 (by rw [hfront])).2.2, hfront, hmore⟩

end ClientCodec

end Coffer.Keyring
