import Coffer.Proofs.Keyring.Response
import Mathlib.Data.List.Forall2
/-
  A connection as its holder sees it, from its beginning to its end.

  `Store.answerAll` is what a list of requests does to a store, one after the other, with no bytes
  about.  `Request.Splits` says what a stream consists of: frames of requests, as many as there are,
  and a remainder that begins with none.

  * `Store.serve_eq`     — what a holder makes of some bytes, by `Request.decodeAll` of them;
  * `Attended.attend_eq` — what it makes of a stream, by `Request.decodeAll` of all of it;
  * `splits_iff`         — and a stream splits in one way, the one that `Request.decodeAll` finds.

  So a holder does not see how a stream is cut, each frame is answered once and in its place, and
  nothing behind a rejected frame is looked at (`stream_is_answered_frame_by_frame`).
-/
namespace Coffer.Keyring

variable {s : Store} {d : Disk} {b rest : Bytes} {r : Request} {e : SecretError}

/-! ## The bytes of one arrival -/

/-- What a holder says to the frame that it stopped at. -/
def rejection : Option SecretError → Bytes
  | none => []
  | some e => (Response.failed e.status).encode

namespace Store

/-- Requests to a store one after the other: the responses, and the disk behind the last one. -/
def answerAll (s : Store) : List Request → Disk → List Response × Disk
  | [], d => ([], d)
  | r :: requests, d =>
    let (response, d) := s.answer r d
    let (later, d) := s.answerAll requests d
    (response :: later, d)

theorem answerAll_append (s : Store) (requests later : List Request) (d : Disk) :
    s.answerAll (requests ++ later) d =
      let (responses, d') := s.answerAll requests d
      let (more, d'') := s.answerAll later d'
      (responses ++ more, d'') := by
  induction requests generalizing d with
  | nil => rfl
  | cons r requests ih =>
    simp only [List.cons_append, answerAll, ih]

/-- Each request gets one response, and one that goes with it. -/
theorem answerAll_answers (s : Store) (requests : List Request) (d : Disk) :
    List.Forall₂ (fun r response => response.Answers r.op) requests (s.answerAll requests d).1 := by
  induction requests generalizing d with
  | nil => exact .nil
  | cons r requests ih => exact .cons (s.answers r d) (ih _)

theorem serve_of_incomplete (h : Request.decode b = .incomplete) (d : Disk) :
    s.serve b d = ⟨[], b, true, d⟩ := by
  rw [serve]
  split
  · rfl
  · rename_i h'
    cases h.symm.trans h'
  · rename_i h'
    cases h.symm.trans h'

theorem serve_of_failed (h : Request.decode b = .failed e rest) (d : Disk) :
    s.serve b d = ⟨rejection (some e), rest, false, d⟩ := by
  rw [serve]
  split
  · rename_i h'
    cases h.symm.trans h'
  · rename_i h'
    cases h.symm.trans h'
    rfl
  · rename_i h'
    cases h.symm.trans h'

/-- **A request that is there is answered,** and then what stands behind it. -/
theorem serve_of_frame (h : Request.decode b = .frame r rest) (d : Disk) :
    s.serve b d =
      { s.serve rest (s.answer r d).2 with
        answer := (s.answer r d).1.encode ++ (s.serve rest (s.answer r d).2).answer } := by
  rw [serve]
  split
  · rename_i h'
    cases h.symm.trans h'
  · rename_i h'
    cases h.symm.trans h'
  · rename_i h'
    cases h.symm.trans h'
    rfl

/-- **What a holder makes of some bytes:** it answers the requests in them, and after them the frame
    that it stopped at. -/
theorem serve_eq (s : Store) (b : Bytes) (d : Disk) :
    s.serve b d =
      let told := Request.decodeAll b
      let (responses, d') := s.answerAll told.requests d
      ⟨responses.flatMap Response.encode ++ rejection told.fault?, told.rest, told.fault?.isNone, d'⟩ := by
  induction b using Request.decodeAll.induct generalizing d with
  | case1 b h =>
    rw [serve_of_incomplete h, Request.decodeAll_of_incomplete h]
    rfl
  | case2 b e rest h =>
    rw [serve_of_failed h, Request.decodeAll_of_failed h]
    rfl
  | case3 b r rest h ih =>
    rw [serve_of_frame h, Request.decodeAll_of_frame h, ih]
    simp only [answerAll, List.flatMap_cons, List.append_assoc]

end Store

/-! ## A stream in pieces -/

namespace Request

/-- What `decodeAll` leaves when it meets no failure is not a whole request yet. -/
theorem decode_rest_of_decodeAll (h : (decodeAll b).fault? = none) :
    decode (decodeAll b).rest = .incomplete := by
  induction b using decodeAll.induct with
  | case1 b hb =>
    rw [decodeAll_of_incomplete hb]
    exact hb
  | case2 b e rest hb =>
    rw [decodeAll_of_failed hb] at h
    cases h
  | case3 b r rest hb ih =>
    rw [decodeAll_of_frame hb] at h ⊢
    exact ih h

end Request

namespace Attended

/-- How a connection ends, by what was made of the bytes on it. -/
def ending (told : Received) : Except SecretError Unit :=
  if told.fault?.isNone ∧ told.rest ≠ [] then .error (.io ⟨.other, "bytes remaining on stream"⟩)
  else .ok ()

/-- After a rejected frame a holder looks at nothing. -/
theorem attend_of_closed {c : Attended} (h : c.isOpen = false) (pieces : List Bytes) (d : Disk) :
    c.attend pieces d = ⟨[], .ok (), d⟩ := by
  induction pieces with
  | nil =>
    rw [attend, finish, h]
    rfl
  | cons piece pieces ih =>
    have hreceive : c.receive piece d = ([], c, d) := by
      rw [receive, h]
      rfl
    rw [attend, hreceive]
    simp only [ih, List.append_nil]

/-- **What a holder makes of a stream,** in whatever pieces it arrives.  The bytes `front` are what it
    still has of a request. -/
theorem attend_eq (s : Store) {front : Bytes} (hfront : Request.decode front = .incomplete)
    (pieces : List Bytes) (d : Disk) :
    attend ⟨s, front, true⟩ pieces d =
      let told := Request.decodeAll (front ++ pieces.flatten)
      let (responses, d') := s.answerAll told.requests d
      ⟨responses.flatMap Response.encode ++ rejection told.fault?, ending told, d'⟩ := by
  induction pieces generalizing front d with
  | nil =>
    have hatEnd : finish ⟨s, front, true⟩ = ending ⟨[], none, front⟩ := by
      rw [finish, hfront]
      cases front <;> rfl
    rw [attend, hatEnd, List.flatten_nil, List.append_nil, Request.decodeAll_of_incomplete hfront]
    rfl
  | cons piece pieces ih =>
    have hpiece := Request.decodeAll_append (front ++ piece) pieces.flatten
    rw [List.append_assoc] at hpiece
    rw [attend, receive, if_pos rfl, List.flatten_cons, hpiece]
    simp only [Store.serve_eq]
    rcases hfault : (Request.decodeAll (front ++ piece)).fault? with _ | e
    · -- The bytes left behind the requests of this piece are in front of the next one.
      simp only [Option.isNone_none, rejection, List.append_nil]
      rw [ih (Request.decode_rest_of_decodeAll hfault)]
      simp only [Received.feed, hfault, Store.answerAll_append, List.flatMap_append,
        List.append_assoc]
      rfl
    · -- The holder has hung up, so nobody looks at the later pieces.
      simp only [Option.isNone_some]
      rw [attend_of_closed rfl, List.append_nil]
      rfl

end Attended

/-! ## What a stream consists of -/

namespace Request

/-- A stream is frames of requests, one behind the other and as many as there are, and a remainder. -/
inductive Splits : Bytes → List Request → Bytes → Prop
  | stop {b : Bytes} : (∀ f r rest, Frame f r → b ≠ f ++ rest) → Splits b [] b
  | frame {f b remainder : Bytes} {r : Request} {requests : List Request} :
      Frame f r → Splits b requests remainder → Splits (f ++ b) (r :: requests) remainder

variable {requests requests' : List Request} {remainder remainder' : Bytes}

/-- The end of the frames is where the decoder tells no more of them. -/
theorem Splits.decode_remainder (h : Splits b requests remainder) (r : Request) (rest : Bytes) :
    decode remainder ≠ .frame r rest := by
  induction h with
  | stop hnone =>
    intro hframe
    obtain ⟨f, hf, rfl⟩ := decode_eq_frame_iff.mp hframe
    exact hnone f r rest hf rfl
  | frame _ _ ih => exact ih

/-- The decoder finds the frames that are there. -/
theorem Splits.decodeAll_eq (h : Splits b requests remainder) :
    decodeAll b = { decodeAll remainder with requests := requests } := by
  have hstop := h.decode_remainder
  induction h with
  | @stop b hnone =>
    rcases hb : decode b with _ | ⟨r, rest⟩ | ⟨e, rest⟩
    · rw [decodeAll_of_incomplete hb]
    · exact absurd hb (hstop r rest)
    · rw [decodeAll_of_failed hb]
  | @frame f b _ r _ hf _ ih =>
    have hframe : decode (f ++ b) = .frame r b := decode_eq_frame_iff.mpr ⟨f, hf, rfl⟩
    rw [decodeAll_of_frame hframe, ih hstop]

/-- A rejected frame and an incomplete one both end the frames. -/
theorem Splits.of_no_frame (h : ∀ r rest, decode b ≠ .frame r rest) : Splits b [] b := by
  refine .stop fun f r rest hf hb => h r rest ?_
  exact decode_eq_frame_iff.mpr ⟨f, hf, hb⟩

theorem Splits.of_frame (h : decode b = .frame r rest) (hrest : Splits rest requests remainder) :
    Splits b (r :: requests) remainder := by
  obtain ⟨f, hf, rfl⟩ := decode_eq_frame_iff.mp h
  exact .frame hf hrest

/-- **Every stream splits.** -/
theorem exists_splits (b : Bytes) : ∃ requests remainder, Splits b requests remainder := by
  induction b using decodeAll.induct with
  | case1 b hb =>
    refine ⟨[], b, .of_no_frame ?_⟩
    intro r rest hframe
    rw [hb] at hframe
    cases hframe
  | case2 b e rest hb =>
    refine ⟨[], b, .of_no_frame ?_⟩
    intro r later hframe
    rw [hb] at hframe
    cases hframe
  | case3 b r rest hb ih =>
    obtain ⟨requests, remainder, hrest⟩ := ih
    exact ⟨r :: requests, remainder, .of_frame hb hrest⟩

/-- **A stream splits in one way.** -/
theorem Splits.unique (h : Splits b requests remainder) (h' : Splits b requests' remainder') :
    requests = requests' ∧ remainder = remainder' := by
  induction h generalizing requests' with
  | stop hnone =>
    cases h' with
    | stop => exact ⟨rfl, rfl⟩
    | frame hf => exact absurd rfl (hnone _ _ _ hf)
  | @frame f b remainder r requests hf _ ih =>
    generalize hwhole : f ++ b = whole at h'
    have hframe : decode whole = .frame r b := decode_eq_frame_iff.mpr ⟨f, hf, hwhole.symm⟩
    cases h' with
    | stop hnone => exact absurd hwhole.symm (hnone f r b hf)
    | @frame f' b' _ r' requests' hf' hrest =>
      have hframe' : decode (f' ++ b') = .frame r' b' := decode_eq_frame_iff.mpr ⟨f', hf', rfl⟩
      cases hframe.symm.trans hframe'
      obtain ⟨rfl, rfl⟩ := ih hrest
      exact ⟨rfl, rfl⟩

/-! ## Rejected frames -/

/-- The statuses that a rejected frame can be answered by. -/
def rejections : List Status := [.badRequest, .tooLarge, .forbiddenByte]

theorem status_of_ofBytes (h : Passphrase.ofBytes b = .error e) : e.status ∈ rejections := by
  unfold Passphrase.ofBytes at h
  split at h
  · rename_i hfault
    cases h
    unfold passphraseFault? at hfault
    split_ifs at hfault <;> cases hfault <;> decide
  · cases h

theorem status_of_takeSecret {whole : Bytes} (h : takeSecret whole b = .failed e rest) :
    e.status ∈ rejections := by
  unfold takeSecret at h
  simp only at h
  split_ifs at h
  · cases h
    decide
  · split at h
    · cases h
    · rename_i hbytes
      cases h
      exact status_of_ofBytes hbytes

theorem status_of_locationOf (h : locationOf b = .error e) : e.status ∈ rejections := by
  unfold locationOf at h
  split at h <;> cases h
  exact .head _

/-- **A rejected frame is a bad request, a secret that is too large or one with a forbidden byte.** -/
theorem status_of_decode (h : decode b = .failed e rest) : e.status ∈ rejections := by
  cases begun b with
  | short hshort =>
    rw [decode_of_short hshort] at h
    cases h
  | unknown hsize hop =>
    rw [decode_of_unknown hsize hop] at h
    cases h
    exact .head _
  | cut hsize hcut =>
    rw [decode_of_cut hsize hcut] at h
    cases h
  | @located op size location b hsize =>
    rw [decode_of_located _ hsize] at h
    by_cases hop : op = .update
    · rw [if_pos hop, withSecret] at h
      split at h <;> cases h
      · decide
      · exact status_of_locationOf (by assumption)
      · exact status_of_takeSecret (by assumption)
    · rw [if_neg hop, plain] at h
      split at h <;> cases h
      exact status_of_locationOf (by assumption)

end Request

/-! ## A connection -/

namespace Store

theorem attend_eq (s : Store) (pieces : List Bytes) (d : Disk) :
    s.attend pieces d =
      let told := Request.decodeAll pieces.flatten
      let (responses, d') := s.answerAll told.requests d
      ⟨responses.flatMap Response.encode ++ rejection told.fault?, Attended.ending told, d'⟩ :=
  Attended.attend_eq s rfl pieces d

variable {requests : List Request} {remainder : Bytes}

/-- What a holder makes of a stream whose remainder may still become a request. -/
theorem attend_of_incomplete {pieces : List Bytes}
    (hsplits : Request.Splits pieces.flatten requests remainder)
    (h : Request.decode remainder = .incomplete) (d : Disk) :
    s.attend pieces d =
      let (responses, d') := s.answerAll requests d
      ⟨responses.flatMap Response.encode,
        if remainder = [] then .ok () else .error (.io ⟨.other, "bytes remaining on stream"⟩), d'⟩ := by
  rw [attend_eq, hsplits.decodeAll_eq, Request.decodeAll_of_incomplete h]
  have hending : Attended.ending ⟨requests, none, remainder⟩ =
      if remainder = [] then .ok () else .error (.io ⟨.other, "bytes remaining on stream"⟩) := by
    cases remainder <;> rfl
  simp only [hending, rejection, List.append_nil]

/-- What a holder makes of a stream whose remainder is rejected. -/
theorem attend_of_failed {pieces : List Bytes}
    (hsplits : Request.Splits pieces.flatten requests remainder)
    (h : Request.decode remainder = .failed e rest) (d : Disk) :
    s.attend pieces d =
      let (responses, d') := s.answerAll requests d
      ⟨responses.flatMap Response.encode ++ [e.status.byte], .ok (), d'⟩ := by
  rw [attend_eq, hsplits.decodeAll_eq, Request.decodeAll_of_failed h]
  rfl

/-- **A stream is answered frame by frame.**  What a holder says and does depends on the stream and
    not on its pieces.  The stream splits in one way into frames and a remainder.  Each frame is
    answered once, in its place, from the disk that the frames before it left.  A remainder that may
    still become a request gets no answer.  A rejected one gets a single status that says why, the
    holder hangs up, and no bytes behind it make any difference. -/
theorem stream_is_answered_frame_by_frame (s : Store) (d : Disk) (pieces : List Bytes) :
    (∀ pieces', pieces'.flatten = pieces.flatten → s.attend pieces' d = s.attend pieces d) ∧
    ∃ requests remainder, Request.Splits pieces.flatten requests remainder ∧
      (∀ requests' remainder', Request.Splits pieces.flatten requests' remainder' →
        requests' = requests ∧ remainder' = remainder) ∧
      let (responses, d') := s.answerAll requests d
      List.Forall₂ (fun r response => response.Answers r.op) requests responses ∧
      ((Request.decode remainder = .incomplete ∧
        s.attend pieces d = ⟨responses.flatMap Response.encode,
          if remainder = [] then .ok () else .error (.io ⟨.other, "bytes remaining on stream"⟩), d'⟩) ∨
      ∃ e left, Request.decode remainder = .failed e left ∧
        e.status ∈ [Status.badRequest, .tooLarge, .forbiddenByte] ∧
        s.attend pieces d = ⟨responses.flatMap Response.encode ++ [e.status.byte], .ok (), d'⟩ ∧
        ∀ more, s.attend (pieces ++ more) d = s.attend pieces d) := by
  refine ⟨fun pieces' h => ?_, ?_⟩
  · rw [attend_eq, attend_eq, h]
  · obtain ⟨requests, remainder, hsplits⟩ := Request.exists_splits pieces.flatten
    refine ⟨requests, remainder, hsplits, fun _ _ h => h.unique hsplits,
      s.answerAll_answers requests d, ?_⟩
    rcases hremainder : Request.decode remainder with _ | ⟨r, rest⟩ | ⟨e, left⟩
    · exact .inl ⟨rfl, attend_of_incomplete hsplits hremainder d⟩
    · exact absurd hremainder (hsplits.decode_remainder r rest)
    · refine .inr ⟨e, left, rfl, Request.status_of_decode hremainder,
        attend_of_failed hsplits hremainder d, fun more => ?_⟩
      have hmore := Request.decodeAll_append pieces.flatten more.flatten
      rw [hsplits.decodeAll_eq, Request.decodeAll_of_failed hremainder] at hmore
      rw [attend_eq, attend_eq, List.flatten_append, hmore, hsplits.decodeAll_eq,
        Request.decodeAll_of_failed hremainder]
      rfl

/-- A read of a secret that is not there, an op that is none, and a ping that gets no answer. -/
theorem stream_is_answered_frame_by_frame_of_three :
    (attend ⟨"/s"⟩ [[0x52], [0, 1, 0x6b, 0x58, 0, 0], [0x50, 0, 0]] ⟨[], [], [], 0⟩).answer = [1, 6] := by
  obtain ⟨-, requests, remainder, -, hunique, -, hcases⟩ := stream_is_answered_frame_by_frame ⟨"/s"⟩
    ⟨[], [], [], 0⟩ [[0x52], [0, 1, 0x6b, 0x58, 0, 0], [0x50, 0, 0]]
  have hread : Request.decode [0x52, 0, 1, 0x6b, 0x58, 0, 0, 0x50, 0, 0] =
      .frame (.read "k") [0x58, 0, 0, 0x50, 0, 0] :=
    Request.decode_encode (r := .read "k") rfl [0x58, 0, 0, 0x50, 0, 0]
  have hsplits : Request.Splits [0x52, 0, 1, 0x6b, 0x58, 0, 0, 0x50, 0, 0] [.read "k"]
      [0x58, 0, 0, 0x50, 0, 0] := .of_frame hread (.of_no_frame fun _ _ h => nomatch h)
  obtain ⟨rfl, rfl⟩ := hunique _ _ hsplits
  rcases hcases with ⟨hwait, -⟩ | ⟨e, left, hfailed, -, hattend, -⟩
  · cases hwait
  · cases hfailed
    rw [hattend]
    rfl

end Store

end Coffer.Keyring
