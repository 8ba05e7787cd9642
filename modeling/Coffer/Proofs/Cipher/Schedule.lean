import Coffer.Proofs.Cipher.Aes
import Coffer.Proofs.Outcome
/-
  What calls on an AES backend make of a key schedule.

  1. **Keying.**  `Takes` says what a keying needs, without any order: a length of the user key, the bits
     declared for it, the direction of the schedule, and room for the round keys.  `Refuses` lists the
     refusals in the order in which they are looked at.  A call either installs the round keys of the
     user key or is refused and leaves the schedule alone (`keys_setKey`), and the two exclude each other
     (`Refuses.not_takes`).

  2. **Blocks.**  The same for one block and its output buffer (`transforms_block`).

  3. **Places.**  A schedule and an output buffer are overwritten where they stand, and what is stored
     there before a failure stays.  `setKeyInPlace` and `transformInPlace` are the calls in this reading,
     one statement after the other; they come to the same, since nothing is stored in front of the last
     check.

  4. **Runs.**  However many calls are made with one schedule, it holds what the latest keying that it
     takes has installed (`after_of_latest`).
-/
namespace Coffer.Cipher.Aes

variable {d : Direction} {s : KeySchedule} {key input output : Bytes} {bits size : Nat}

/-! ## Keying a schedule -/

/-- Bytes that the round keys occupy, for each length that a user key may have. -/
def roomFor? : (length : Nat) → Option Nat
  | 16 => some 176
  | 24 => some 208
  | 32 => some 240
  | _ => none

/-- What it takes to key `s` for direction `d` with `key`: its round keys occupy `size` bytes. -/
structure Takes (d : Direction) (s : KeySchedule) (key : Bytes) (bits size : Nat) : Prop where
  room : roomFor? key.length = some size
  bits_eq : bits = 8 * key.length
  direction_eq : s.direction = d
  fits : size ≤ s.capacity

/-- Why a keying is refused; each reason stands behind the ones in front of it. -/
inductive Refuses (d : Direction) (s : KeySchedule) (key : Bytes) (bits : Nat) : CipherError → Prop
  | empty (hkey : key = []) : Refuses d s key bits (.invalidArgument .emptyUserKey)
  | miscounted (hkey : key ≠ []) (hbits : bits ≠ 8 * key.length) :
    Refuses d s key bits (.invalidArgument (.keyBits key.length bits))
  | misdirected (hkey : key ≠ []) (hbits : bits = 8 * key.length) (hd : s.direction ≠ d) :
    Refuses d s key bits (.invalidArgument (.keyingDirection s.direction d))
  | malformed (hkey : key ≠ []) (hbits : bits = 8 * key.length) (hd : s.direction = d)
    (hroom : roomFor? key.length = none) :
    Refuses d s key bits (.invalidKeyMaterial key.length .notAesLength)
  | cramped {size : Nat} (hbits : bits = 8 * key.length) (hd : s.direction = d)
    (hroom : roomFor? key.length = some size) (hlt : s.capacity < size) :
    Refuses d s key bits (.invalidArgument (.expandedKeyTooLong size s.capacity))

/-- What a keying comes to: its outcome, and the schedule behind it. -/
inductive Keys (d : Direction) (s : KeySchedule) (key : Bytes) (bits : Nat) :
    Except CipherError Unit × KeySchedule → Prop
  | keyed {size : Nat} {keys : RoundKeys} (htakes : Takes d s key bits size)
    (hkeys : expandKey? key = some keys) (hsize : (keys.toExpanded d).size = size) :
    Keys d s key bits (.ok (), { s with key? := some (keys.toExpanded d) })
  | refused {e : CipherError} (h : Refuses d s key bits e) : Keys d s key bits (.error e, s)

/-- A refused keying lacks something that it needs. -/
theorem Refuses.not_takes {e : CipherError} (h : Refuses d s key bits e) (size : Nat) :
    ¬ Takes d s key bits size := by
  intro htakes
  have hroom := htakes.room
  cases h with
  | empty hkey =>
    rw [hkey] at hroom
    cases hroom
  | miscounted _ hbits => exact hbits htakes.bits_eq
  | misdirected _ _ hd => exact hd htakes.direction_eq
  | malformed _ _ _ hnone =>
    rw [hnone] at hroom
    cases hroom
  | cramped _ _ hsome hlt =>
    rw [hsome] at hroom
    cases hroom
    exact absurd htakes.fits (Nat.not_le.mpr hlt)

/-- There is room to be had for one round key in front of the rounds and one for each round. -/
theorem roomFor?_eq (n : Nat) :
    roomFor? n = (roundsOfLength? n).map fun rounds => (rounds + 1) * blockSize := by
  unfold roomFor?
  split
  · rfl
  · rfl
  · rfl
  · rw [roundsOfLength?, Option.map_none] <;> assumption

/-- A user key of another length has no round keys. -/
theorem expand_of_roomFor?_none (h : roomFor? key.length = none) :
    expand d key = .error (.invalidKeyMaterial key.length .notAesLength) := by
  rw [roomFor?_eq, Option.map_eq_none_iff] at h
  simp only [expand, expandKey?, h]
  rfl

/-- The round keys of a user key occupy the bytes that there must be room for. -/
theorem expandKey?_of_roomFor? (h : roomFor? key.length = some size) :
    ∃ keys, expandKey? key = some keys ∧ ∀ d, (keys.toExpanded d).size = size := by
  rw [roomFor?_eq, Option.map_eq_some_iff] at h
  obtain ⟨rounds, hrounds, hsize⟩ := h
  obtain ⟨keys, hkeys, heq⟩ := expandKey?_of_roundsOfLength? hrounds
  refine ⟨keys, hkeys, ?_⟩
  intro d
  show (keys.rounds + 1) * blockSize = size
  rw [heq, hsize]

theorem checkUserKey_of_miscounted (hkey : key ≠ []) (hbits : bits ≠ 8 * key.length) :
    checkUserKey key bits = .error (.invalidArgument (.keyBits key.length bits)) := by
  have hempty : key.isEmpty = false := by simpa using hkey
  rw [checkUserKey, hempty, if_neg Bool.false_ne_true, if_pos (by omega)]

/-- **A keying installs the round keys, or it is refused and leaves the schedule alone.** -/
theorem keys_setKey (algorithm : Algorithm) (name : String) (d : Direction) (s : KeySchedule)
    (key : Bytes) (bits : Nat) :
    Keys d s key bits ((backend algorithm name).setKey d s key bits) := by
  simp only [backend]
  by_cases hkey : key = []
  · subst hkey
    exact .refused (.empty rfl)
  by_cases hbits : bits = 8 * key.length
  case neg =>
    rw [keySchedule, checkUserKey_of_miscounted hkey hbits, error_bind]
    exact .refused (.miscounted hkey hbits)
  rw [keySchedule, checkUserKey_of_bits hkey hbits, ok_bind]
  by_cases hd : s.direction = d
  case neg =>
    rw [if_pos hd]
    exact .refused (.misdirected hkey hbits hd)
  rw [if_neg (not_not_intro hd)]
  rcases hroom : roomFor? key.length with _ | size
  · rw [expand_of_roomFor?_none hroom, error_bind]
    exact .refused (.malformed hkey hbits hd hroom)
  · obtain ⟨keys, hkeys, hsize⟩ := expandKey?_of_roomFor? hroom
    rw [expand_of_expandKey? hkeys d, ok_bind, KeySchedule.install, hsize d]
    by_cases hlt : s.capacity < size
    · rw [if_pos hlt]
      exact .refused (.cramped hbits hd hroom hlt)
    · rw [if_neg hlt]
      exact .keyed ⟨hroom, hbits, hd, Nat.not_lt.mp hlt⟩ hkeys (hsize d)

/-! ## Transforming a block -/

/-- Why an operation on a block is refused; each reason stands behind the ones in front of it. -/
inductive RefusesBlock (d : Direction) (input output : Bytes) (s : KeySchedule) : CipherError → Prop
  | misfit (h : ¬ (input.length = 16 ∧ output.length = 16)) :
    RefusesBlock d input output s (.invalidArgument (.blockBuffers 16 input.length output.length))
  | misdirected (hin : input.length = 16) (hout : output.length = 16) (hd : s.direction ≠ d) :
    RefusesBlock d input output s (.invalidArgument (.scheduleDirection s.direction d))
  | unset (hin : input.length = 16) (hout : output.length = 16) (hd : s.direction = d)
    (hkey : s.key? = none) : RefusesBlock d input output s (.notInitialized d)

/-- What an operation on a block comes to: its outcome, and the output buffer behind it. -/
inductive Transforms (d : Direction) (input output : Bytes) (s : KeySchedule) :
    Except CipherError Unit × Bytes → Prop
  | transformed {k : ExpandedKey} (hin : input.length = 16) (hout : output.length = 16)
    (hd : s.direction = d) (hkey : s.key? = some k) :
    Transforms d input output s (.ok (), k.transform input)
  | refused {e : CipherError} (h : RefusesBlock d input output s e) :
    Transforms d input output s (.error e, output)

/-- **An operation on a block transforms it, or it is refused and leaves the output alone.** -/
theorem transforms_block (algorithm : Algorithm) (name : String) (d : Direction)
    (input output : Bytes) (s : KeySchedule) :
    Transforms d input output s ((backend algorithm name).block d input output s) := by
  show Transforms d input output s (transformBlock 16 d input output s)
  by_cases hfit : input.length = 16 ∧ output.length = 16
  case neg =>
    rw [transformBlock, if_pos (by omega)]
    exact .refused (.misfit hfit)
  obtain ⟨hin, hout⟩ := hfit
  rw [transformBlock, if_neg (by omega)]
  by_cases hd : s.direction = d
  case neg =>
    rw [if_pos hd]
    exact .refused (.misdirected hin hout hd)
  rw [if_neg (not_not_intro hd), KeySchedule.expanded]
  rcases hkey : s.key? with _ | k
  · rw [hd]
    exact .refused (.unset hin hout hd hkey)
  · exact .transformed hin hout hd hkey

/-! ## The same calls in their places -/

/-- A call on a value that is overwritten in its place.  What is stored by the time the call fails stays
    stored. -/
abbrev Overwriting (σ : Type) := ExceptT CipherError (StateM σ)

/-- The key is put into the schedule behind the check of the room for it. -/
def installInPlace (key : ExpandedKey) : Overwriting KeySchedule Unit := do
  let s ← get
  if s.capacity < key.size then
    throw (.invalidArgument (.expandedKeyTooLong key.size s.capacity))
  set { s with key? := some key }

/-- A keying, one statement after the other. -/
def setKeyInPlace (d : Direction) (key : Bytes) (bits : Nat) : Overwriting KeySchedule Unit := do
  checkUserKey key bits
  let s ← get
  if s.direction ≠ d then throw (.invalidArgument (.keyingDirection s.direction d))
  let keys ← expand d key
  installInPlace keys

/-- An operation on a block, one statement after the other: the input is copied to the output buffer,
    which is then transformed. -/
def transformInPlace (d : Direction) (input : Bytes) (s : KeySchedule) : Overwriting Bytes Unit := do
  let output ← get
  if input.length ≠ blockSize ∨ output.length ≠ blockSize then
    throw (.invalidArgument (.blockBuffers blockSize input.length output.length))
  if s.direction ≠ d then throw (.invalidArgument (.scheduleDirection s.direction d))
  let key ← s.expanded
  set input
  modify key.transform

section InPlace

variable {σ α β : Type}

theorem run_get_bind (f : σ → Overwriting σ β) (x : σ) :
    ((get : Overwriting σ σ) >>= f).run.run x = (f x).run.run x := rfl

theorem run_check_ok (a : α) (f : α → Overwriting σ β) (x : σ) :
    ((liftM (Except.ok a : Except CipherError α) : Overwriting σ α) >>= f).run.run x =
      (f a).run.run x := rfl

theorem run_check_error (e : CipherError) (f : α → Overwriting σ β) (x : σ) :
    ((liftM (Except.error e : Except CipherError α) : Overwriting σ α) >>= f).run.run x =
      (.error e, x) := rfl

/-- **A keying in its place is the keying:** nothing is stored in front of the last check. -/
theorem run_setKeyInPlace (algorithm : Algorithm) (name : String) (d : Direction) (s : KeySchedule)
    (key : Bytes) (bits : Nat) :
    (setKeyInPlace d key bits).run.run s = (backend algorithm name).setKey d s key bits := by
  simp only [backend]
  rw [setKeyInPlace, keySchedule]
  rcases checkUserKey key bits with e | ⟨⟩
  · rw [run_check_error, error_bind]
  rw [run_check_ok, ok_bind, run_get_bind]
  by_cases hd : s.direction = d
  case neg =>
    rw [if_pos hd, if_pos hd]
    rfl
  rw [if_neg (not_not_intro hd), if_neg (not_not_intro hd)]
  rcases expand d key with e | keys
  · rw [run_check_error, error_bind]
  rw [run_check_ok, ok_bind, installInPlace, run_get_bind, KeySchedule.install]
  by_cases hlt : s.capacity < keys.size
  · rw [if_pos hlt, if_pos hlt]
    rfl
  · rw [if_neg hlt, if_neg hlt]
    rfl

/-- **An operation on a block in its place is the operation:** the input is copied behind the last
    check. -/
theorem run_transformInPlace (algorithm : Algorithm) (name : String) (d : Direction)
    (input output : Bytes) (s : KeySchedule) :
    (transformInPlace d input s).run.run output =
      (backend algorithm name).block d input output s := by
  show _ = transformBlock blockSize d input output s
  rw [transformInPlace, run_get_bind, transformBlock]
  by_cases hfit : input.length ≠ blockSize ∨ output.length ≠ blockSize
  · rw [if_pos hfit, if_pos hfit]
    rfl
  rw [if_neg hfit, if_neg hfit]
  by_cases hd : s.direction = d
  case neg =>
    rw [if_pos hd, if_pos hd]
    rfl
  rw [if_neg (not_not_intro hd), if_neg (not_not_intro hd)]
  rcases s.expanded with e | k
  · rw [run_check_error]
  · rw [run_check_ok]
    rfl

end InPlace

/-! ## Calls with one schedule -/

/-- A call that is made with a schedule. -/
inductive Use
  | keying (d : Direction) (key : Bytes) (bits : Nat)
  | block (d : Direction) (input output : Bytes)

/-- The schedule behind a call.  An operation on a block is only given it to read. -/
def Use.leaves (cipher : BlockCipher) (s : KeySchedule) : Use → KeySchedule
  | keying d key bits => (cipher.setKey d s key bits).2
  | block _ _ _ => s

/-- The schedule behind some calls. -/
def after (cipher : BlockCipher) (s : KeySchedule) (uses : List Use) : KeySchedule :=
  uses.foldl (Use.leaves cipher) s

/-- Whether a call installs a key in a schedule of this direction and capacity. -/
def Use.Installs (s : KeySchedule) : Use → Prop
  | keying d key bits => ∃ size, Takes d s key bits size
  | block _ _ _ => False

section Runs

variable {algorithm : Algorithm} {name : String} {u : Use} {later : List Use}

/-- A call exchanges at most the key. -/
theorem Use.exists_leaves (algorithm : Algorithm) (name : String) (s : KeySchedule) (u : Use) :
    ∃ key?, u.leaves (backend algorithm name) s = { s with key? := key? } := by
  cases u with
  | block d input output => exact ⟨s.key?, rfl⟩
  | keying d key bits =>
    have hkeys := keys_setKey algorithm name d s key bits
    rw [leaves]
    generalize (backend algorithm name).setKey d s key bits = result at hkeys ⊢
    cases hkeys with
    | keyed => exact ⟨_, rfl⟩
    | refused => exact ⟨s.key?, rfl⟩

theorem Use.leaves_of_not_installs (h : ¬ u.Installs s) :
    u.leaves (backend algorithm name) s = s := by
  cases u with
  | block d input output => rfl
  | keying d key bits =>
    have hkeys := keys_setKey algorithm name d s key bits
    rw [leaves]
    generalize (backend algorithm name).setKey d s key bits = result at hkeys ⊢
    cases hkeys with
    | keyed htakes => exact absurd ⟨_, htakes⟩ h
    | refused => rfl

/-- What a call installs does not hang on the key that is there. -/
theorem Use.installs_iff (key? : Option ExpandedKey) :
    u.Installs { s with key? := key? } ↔ u.Installs s := by
  cases u with
  | block d input output => exact Iff.rfl
  | keying d key bits =>
    constructor
    · rintro ⟨size, h⟩
      exact ⟨size, h.room, h.bits_eq, h.direction_eq, h.fits⟩
    · rintro ⟨size, h⟩
      exact ⟨size, h.room, h.bits_eq, h.direction_eq, h.fits⟩

theorem after_append (cipher : BlockCipher) (s : KeySchedule) (before later : List Use) :
    after cipher s (before ++ later) = after cipher (after cipher s before) later :=
  List.foldl_append

/-- Calls that install nothing leave the schedule. -/
theorem after_of_not_installs (h : ∀ u ∈ later, ¬ u.Installs s) :
    after (backend algorithm name) s later = s := by
  induction later with
  | nil => rfl
  | cons u later ih =>
    show after (backend algorithm name) (u.leaves (backend algorithm name) s) later = s
    rw [Use.leaves_of_not_installs (h u List.mem_cons_self)]
    exact ih fun v hv => h v (List.mem_cons_of_mem u hv)

/-- Any calls exchange at most the key. -/
theorem exists_after (algorithm : Algorithm) (name : String) (s : KeySchedule) (uses : List Use) :
    ∃ key?, after (backend algorithm name) s uses = { s with key? := key? } := by
  induction uses generalizing s with
  | nil => exact ⟨s.key?, rfl⟩
  | cons u uses ih =>
    obtain ⟨first, hfirst⟩ := u.exists_leaves algorithm name s
    obtain ⟨last, hlast⟩ := ih { s with key? := first }
    refine ⟨last, ?_⟩
    show after (backend algorithm name) (u.leaves (backend algorithm name) s) uses = _
    rw [hfirst, hlast]

/-- **A schedule holds what the latest keying that it takes has installed.** -/
theorem after_of_latest (before : List Use) (htakes : Takes d s key bits size)
    (hlater : ∀ u ∈ later, ¬ u.Installs s) :
    ∃ keys, expandKey? key = some keys ∧
      after (backend algorithm name) s (before ++ .keying d key bits :: later) =
        { s with key? := some (keys.toExpanded d) } := by
  obtain ⟨old, hbefore⟩ := exists_after algorithm name s before
  have hkeys := keys_setKey algorithm name d { s with key? := old } key bits
  rw [after_append, hbefore]
  show ∃ keys, _ ∧ after (backend algorithm name)
    ((backend algorithm name).setKey d { s with key? := old } key bits).2 later = _
  generalize (backend algorithm name).setKey d { s with key? := old } key bits = result at hkeys ⊢
  cases hkeys with
  | @keyed _ keys _ hkeys _ =>
    refine ⟨keys, hkeys, after_of_not_installs ?_⟩
    intro u hu
    rw [Use.installs_iff, Use.installs_iff]
    exact hlater u hu
  | refused h =>
    exact absurd ⟨htakes.room, htakes.bits_eq, htakes.direction_eq, htakes.fits⟩ (h.not_takes size)

end Runs

/-! ## The contract of the calls -/

/-- What a backend makes of keying a schedule. -/
structure KeysCleanly (cipher : BlockCipher) (d : Direction) (s : KeySchedule) (key : Bytes)
    (bits : Nat) : Prop where
  /-- A keying succeeds exactly when there is all that it takes. -/
  succeeds_iff : (cipher.setKey d s key bits).1 = .ok () ↔ ∃ size, Takes d s key bits size
  /-- The schedule is then set, with as many bytes as there had to be room for. -/
  sets : ∀ size, Takes d s key bits size →
    (cipher.setKey d s key bits).2.isSet = true ∧ (cipher.setKey d s key bits).2.size = size
  /-- It is the round keys of the user key that are there, and nothing else was exchanged. -/
  installs : (cipher.setKey d s key bits).1 = .ok () → ∃ keys, expandKey? key = some keys ∧
    (cipher.setKey d s key bits).2 = { s with key? := some (keys.toExpanded d) }
  /-- A keying that fails leaves the schedule, with the key that is installed there. -/
  fails : ∀ e, (cipher.setKey d s key bits).1 = .error e →
    Refuses d s key bits e ∧ (cipher.setKey d s key bits).2 = s

/-- What a backend makes of a block and an output buffer. -/
structure TransformsCleanly (cipher : BlockCipher) (d : Direction) (input output : Bytes)
    (s : KeySchedule) : Prop where
  /-- The operation succeeds exactly on two blocks and a schedule of its direction that is set. -/
  succeeds_iff : (cipher.block d input output s).1 = .ok () ↔
    input.length = 16 ∧ output.length = 16 ∧ s.direction = d ∧ s.isSet = true
  /-- The output is then the transformed input, whatever it held. -/
  writes : (cipher.block d input output s).1 = .ok () → ∃ k, s.key? = some k ∧
    (cipher.block d input output s).2 = k.transform input
  /-- An operation that fails leaves the output. -/
  fails : ∀ e, (cipher.block d input output s).1 = .error e →
    RefusesBlock d input output s e ∧ (cipher.block d input output s).2 = output

theorem keysCleanly_backend (algorithm : Algorithm) (name : String) (d : Direction) (s : KeySchedule)
    (key : Bytes) (bits : Nat) : KeysCleanly (backend algorithm name) d s key bits := by
  have hkeys := keys_setKey algorithm name d s key bits
  generalize hresult : (backend algorithm name).setKey d s key bits = result at hkeys
  cases hkeys with
  | @keyed size keys htakes hkeys hsize =>
    constructor
    · rw [hresult]
      exact iff_of_true rfl ⟨size, htakes⟩
    · intro size' htakes'
      have heq : size' = size := Option.some.inj (htakes'.room.symm.trans htakes.room)
      rw [hresult, heq]
      exact ⟨rfl, hsize⟩
    · intro _
      rw [hresult]
      exact ⟨keys, hkeys, rfl⟩
    · intro e he
      rw [hresult] at he
      cases he
  | @refused e h =>
    constructor
    · rw [hresult]
      exact iff_of_false nofun fun ⟨size, htakes⟩ => h.not_takes size htakes
    · intro size htakes
      exact absurd htakes (h.not_takes size)
    · intro hok
      rw [hresult] at hok
      cases hok
    · intro e' he
      rw [hresult] at he ⊢
      cases he
      exact ⟨h, rfl⟩

theorem transformsCleanly_backend (algorithm : Algorithm) (name : String) (d : Direction)
    (input output : Bytes) (s : KeySchedule) :
    TransformsCleanly (backend algorithm name) d input output s := by
  have htransforms := transforms_block algorithm name d input output s
  generalize hresult : (backend algorithm name).block d input output s = result at htransforms
  cases htransforms with
  | @transformed k hin hout hd hkey =>
    have hset : s.isSet = true := by rw [KeySchedule.isSet, hkey, Option.isSome_some]
    constructor
    · rw [hresult]
      exact iff_of_true rfl ⟨hin, hout, hd, hset⟩
    · intro _
      rw [hresult]
      exact ⟨k, hkey, rfl⟩
    · intro e he
      rw [hresult] at he
      cases he
  | @refused e h =>
    constructor
    · rw [hresult]
      refine iff_of_false nofun ?_
      rintro ⟨hin, hout, hd, hset⟩
      cases h with
      | misfit hfit => exact hfit ⟨hin, hout⟩
      | misdirected _ _ hne => exact hne hd
      | unset _ _ _ hkey =>
        rw [KeySchedule.isSet, hkey] at hset
        cases hset
    · intro hok
      rw [hresult] at hok
      cases hok
    · intro e' he
      rw [hresult] at he ⊢
      cases he
      exact ⟨h, rfl⟩

/-- **Calls take effect or leave no trace.**  For every schedule, and both as they are and in their
    places: a keying installs the round keys of the user key, or it fails and leaves the schedule; an
    operation on a block transforms it, or it fails and leaves the output.  However many calls are made,
    the schedule holds what the latest keying that it takes has installed, and is as it was where there
    is none. -/
theorem calls_take_effect_or_leave_no_trace (algorithm : Algorithm) (name : String)
    (s : KeySchedule) :
    (∀ d key bits, KeysCleanly (backend algorithm name) d s key bits ∧
      (setKeyInPlace d key bits).run.run s = (backend algorithm name).setKey d s key bits) ∧
    (∀ d input output, TransformsCleanly (backend algorithm name) d input output s ∧
      (transformInPlace d input s).run.run output =
        (backend algorithm name).block d input output s) ∧
    (∀ uses, (∀ u ∈ uses, ¬ Use.Installs s u) → after (backend algorithm name) s uses = s) ∧
    ∀ before d key bits size later, Takes d s key bits size → (∀ u ∈ later, ¬ Use.Installs s u) →
      ∃ keys, expandKey? key = some keys ∧
        after (backend algorithm name) s (before ++ .keying d key bits :: later) =
          { s with key? := some (keys.toExpanded d) } := by
  refine ⟨?_, ?_, ?_, ?_⟩
  · intro d key bits
    exact ⟨keysCleanly_backend algorithm name d s key bits,
      run_setKeyInPlace algorithm name d s key bits⟩
  · intro d input output
    exact ⟨transformsCleanly_backend algorithm name d input output s,
      run_transformInPlace algorithm name d input output s⟩
  · intro uses h
    exact after_of_not_installs h
  · intro before d key bits size later htakes hlater
    exact after_of_latest before htakes hlater

/-- A schedule for decryption with room for 208 bytes takes a key of 24 bytes in the place of one of 16.
    A key of 32 bytes behind it does not fit, one for encryption is misdirected, and with 128 bits
    declared it is miscounted; none of them is seen in the schedule. -/
theorem calls_take_effect_or_leave_no_trace_on_portable :
    ∃ keys, expandKey? (List.replicate 24 7) = some keys ∧
      after portable (.empty .decrypt 208) ([.keying .decrypt (List.replicate 16 1) 128] ++
        .keying .decrypt (List.replicate 24 7) 192 ::
          [.keying .decrypt (List.replicate 32 9) 256, .keying .encrypt (List.replicate 24 9) 192,
            .keying .decrypt (List.replicate 24 9) 128, .block .decrypt (List.replicate 16 0) []]) =
        ⟨.decrypt, 208, some (keys.toExpanded .decrypt)⟩ ∧
      (portable.setKey .decrypt (.empty .decrypt 208) (List.replicate 24 7) 192).2.size = 208 ∧
      (portable.block .decrypt (List.replicate 16 0) (List.replicate 16 1) (.empty .decrypt 208)).1 ≠
        .ok () := by
  obtain ⟨hkeying, hblock, -, hlatest⟩ := calls_take_effect_or_leave_no_trace .aes "AES (portable)"
    (.empty .decrypt 208)
  have htakes : Takes .decrypt (.empty .decrypt 208) (List.replicate 24 7) 192 208 :=
    ⟨rfl, rfl, rfl, Nat.le_refl 208⟩
  have hcramped : Refuses .decrypt (.empty .decrypt 208) (List.replicate 32 9) 256 _ :=
    .cramped rfl rfl (rfl : _ = some 240) (by decide)
  have hmisdirected : Refuses .encrypt (.empty .decrypt 208) (List.replicate 24 9) 192 _ :=
    .misdirected (by decide) rfl (by decide)
  have hmiscounted : Refuses .decrypt (.empty .decrypt 208) (List.replicate 24 9) 128 _ :=
    .miscounted (by decide) (by decide)
  have hlater : ∀ u ∈ ([.keying .decrypt (List.replicate 32 9) 256,
      .keying .encrypt (List.replicate 24 9) 192, .keying .decrypt (List.replicate 24 9) 128,
      .block .decrypt (List.replicate 16 0) []] : List Use), ¬ Use.Installs (.empty .decrypt 208) u := by
    intro u hu
    simp only [List.mem_cons, List.not_mem_nil, or_false] at hu
    rcases hu with rfl | rfl | rfl | rfl
    · exact fun ⟨size, h⟩ => hcramped.not_takes size h
    · exact fun ⟨size, h⟩ => hmisdirected.not_takes size h
    · exact fun ⟨size, h⟩ => hmiscounted.not_takes size h
    · exact id
  obtain ⟨keys, hkeys, hafter⟩ := hlatest [.keying .decrypt (List.replicate 16 1) 128] .decrypt
    (List.replicate 24 7) 192 208 _ htakes hlater
  refine ⟨keys, hkeys, hafter, ?_, ?_⟩
  · exact ((hkeying .decrypt (List.replicate 24 7) 192).1.sets 208 htakes).2
  · intro hok
    have hset := (hblock .decrypt _ _).1.succeeds_iff.mp hok
    exact Bool.false_ne_true hset.2.2.2

end Coffer.Cipher.Aes
