import Coffer.Keyring.Server
import Coffer.Proofs.Keyring.Received
/-
  Responses are decoded as what the holder said.

  How a response is read depends on the request before it.  `Response.Answers` tells which responses go
  with which op; the holder gives no others (`Store.answers`), and a client that remembers the op reads
  each of them as it is (`Response.decode_encode`).  What it has read stays (`Response.steady_decode`).
-/
namespace Coffer.Keyring

open Decoded (Steady)

variable {b rest : Bytes} {op : Op} {r : Response}

namespace Response

/-- The responses to an op: a failure, a secret for a read, and nothing else for the other ops. -/
inductive Answers : Op → Response → Prop
  | failed {op : Op} {s : Status} : s ≠ .ok → Answers op (failed s)
  | secret (p : Passphrase) : Answers .read (ofSecret p)
  | done {op : Op} : op ≠ .read → Answers op done

/-- A status that brings no secret. -/
theorem decode_of_plain {pending : Option Op} {s : Status} (h : s ≠ .ok ∨ pending ≠ some .read)
    (b : Bytes) :
    decode pending (s.byte :: b) = .frame (failed s) b := by
  rw [decode, Status.ofByte?_byte]
  exact if_pos h

/-- The status that brings one. -/
theorem decode_of_secret {p : Passphrase}
    (h : takeSecret (Status.ok.byte :: b) b = .frame p rest) :
    decode (some .read) (Status.ok.byte :: b) = .frame (ofSecret p) rest := by
  have hplain : ¬ (Status.ok ≠ .ok ∨ some Op.read ≠ some .read) := by simp
  rw [decode, Status.ofByte?_byte]
  simp only [if_neg hplain, h]

/-- **A response is read as it is,** whatever stands behind it. -/
theorem decode_encode (h : Answers op r) (rest : Bytes) :
    decode (some op) (r.encode ++ rest) = .frame r rest := by
  cases h with
  | failed hs => exact decode_of_plain (.inl hs) rest
  | secret p =>
    have hsize := counts_be32 (Nat.lt_of_le_of_lt p.rules.1 (by decide : maxPassphrase < 4294967296))
    exact decode_of_secret (takeSecret_eq_frame_iff.mpr ⟨_, hsize, rfl⟩)
  | done hop => exact decode_of_plain (.inr fun h => hop (Option.some.inj h)) rest

/-- **What is read as a response to an op goes with it.** -/
theorem answers_of_decode (h : decode (some op) b = .frame r rest) : Answers op r := by
  match b with
  | [] => cases h
  | byte :: b =>
    rcases hs : Status.ofByte? byte with _ | s
    · simp only [decode, hs] at h
      cases h
    · simp only [decode, hs] at h
      by_cases hplain : s ≠ .ok ∨ some op ≠ some .read
      · rw [if_pos hplain] at h
        cases h
        by_cases hok : s = .ok
        · subst hok
          have hop : op ≠ .read := by
            rintro rfl
            exact hplain.elim (absurd rfl) (absurd rfl)
          exact .done hop
        · exact .failed hok
      · rw [if_neg hplain] at h
        obtain ⟨-, hop⟩ := not_or.mp hplain
        cases Option.some.inj (Decidable.not_not.mp hop)
        rcases hsecret : takeSecret (byte :: b) b with _ | ⟨p, left⟩ | ⟨e, left⟩ <;> rw [hsecret] at h <;>
          cases h
        exact .secret p

/-- **More bytes do not change what was said about a response.** -/
theorem steady_decode (pending : Option Op) : Steady (decode pending) := by
  intro b extra h
  match b with
  | [] => exact absurd rfl h
  | byte :: b =>
    rw [List.cons_append]
    rcases hs : Status.ofByte? byte with _ | s
    · simp only [decode, hs, Decoded.before, List.cons_append]
    · simp only [decode, hs] at h ⊢
      by_cases hplain : s ≠ .ok ∨ pending ≠ some .read
      · rw [if_pos hplain, if_pos hplain]
        rfl
      · rw [if_neg hplain] at h
        rw [if_neg hplain, if_neg hplain, ← List.cons_append]
        rcases hsecret : takeSecret (byte :: b) b with _ | ⟨p, left⟩ | ⟨e, left⟩
        · rw [hsecret] at h
          exact absurd rfl h
        all_goals
          have hdone : takeSecret (byte :: b) b ≠ .incomplete := by
            rw [hsecret]
            intro h
            cases h
          rw [takeSecret_before extra hdone, hsecret]
          rfl

end Response

/-! ## The holder's answers -/

/-- The status of a failure is a failure. -/
theorem SecretError.status_ne_ok (e : SecretError) : e.status ≠ .ok := by
  cases e <;> exact fun h => nomatch h

/-- **A holder answers a request by a response that goes with it.** -/
theorem Store.answers (s : Store) (r : Request) (d : Disk) : (s.answer r d).1.Answers r.op := by
  cases r with
  | ping => exact .done fun h => nomatch h
  | read location =>
    rw [Store.answer]
    rcases s.read location d with e | secret
    · exact .failed e.status_ne_ok
    · exact .secret secret
  | update location secret =>
    rw [Store.answer]
    rcases s.write location secret d with ⟨e | ⟨⟩, d'⟩
    · exact .failed e.status_ne_ok
    · exact .done fun h => nomatch h

end Coffer.Keyring
