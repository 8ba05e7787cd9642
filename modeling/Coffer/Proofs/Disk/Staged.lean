import Coffer.Disk.Staged
import Coffer.Proofs.Disk.Calls
import Coffer.Proofs.Stream.Sink
/-
  One staged file.

  `StagedFile.Stands s t b d` says that a staged file is neither committed nor discarded: its temporary
  file is at the place `t` and holds the bytes `b`.  Writing adds to the bytes (`Stands.write`), giving
  the file up takes it away (`Stands.discard`), and a commit puts all the bytes at the destination, or
  it is as if the file had been given up (`Stands.commit`).

  A staged file that is written to through a device holds what the device has taken (`Staging.Stores`),
  whatever calls are made on it (`Staging.stable_stores`); their answers are those of the device
  (`Staging.maps_device`).
-/
namespace Coffer

open Disk (Only)

namespace StagedFile

variable {s s' : StagedFile} {d d' : Disk} {t q : Place} {b : Bytes} {destination : String}
  {ts : List Place}

/-- The path of the temporary file ends in another name than the destination. -/
theorem lastName?_temporaryPath_ne {temporary : String}
    (h : temporaryPath? destination = some temporary) :
    Path.lastName? temporary ≠ Path.lastName? destination := by
  obtain ⟨name, hname, rfl⟩ := Option.map_eq_some_iff.mp h
  exact Path.lastName?_temporary_ne _ hname

/-- A staged file that is neither committed nor discarded: its temporary file is at the place `t` and
    holds the bytes `b`, and it goes on behind them. -/
structure Stands (s : StagedFile) (t : Place) (b : Bytes) (d : Disk) : Prop
    extends Disk.Grows s.file s.temporary t b d where
  temporary_eq : temporaryPath? s.destination = some s.temporary

/-- What happens elsewhere is nothing to it. -/
theorem Stands.of_only (h : Only ts d d') (ht : t ∉ ts) (hs : s.Stands t b d) : s.Stands t b d' :=
  ⟨hs.toGrows.of_only h ht, hs.temporary_eq⟩

/-- **A new staged file is empty,** and the place of its temporary file is the only one that changes. -/
theorem create_stands (hd : d.Sound) {fault? : Option Disk.Fault}
    (h : create destination d fault? = (.ok s, d')) :
    ∃ t, s.Stands t [] d' ∧ s.destination = destination ∧ Only [t] d d' ∧ d'.Sound := by
  rcases htemp : temporaryPath? destination with _ | temporary
  · simp only [create, htemp] at h
    cases h
  · simp only [create, htemp] at h
    rcases hc : d.attempt fault? (Disk.create temporary 0o644) with ⟨e | file, d1⟩
    · rw [hc] at h
      cases h
    · rw [hc] at h
      cases h
      obtain ⟨t, hgrows, honly, hsound⟩ := Disk.create_grows hd (Disk.call_of_attempt hc)
      exact ⟨t, ⟨hgrows, htemp⟩, rfl, honly, hsound⟩

/-- A staged file that could not be created leaves no trace. -/
theorem create_of_error {e : IoError} {fault? : Option Disk.Fault}
    (h : create destination d fault? = (.error e, d')) : d' = d := by
  rcases htemp : temporaryPath? destination with _ | temporary
  · simp only [create, htemp] at h
    cases h
    rfl
  · simp only [create, htemp] at h
    rcases hc : d.attempt fault? (Disk.create temporary 0o644) with ⟨e | file, d1⟩
    · rw [hc] at h
      cases h
      exact Disk.attempt_of_error (fun _ => Disk.create_of_error) hc
    · rw [hc] at h
      cases h

/-- **What is written comes behind what was written before.** -/
theorem Stands.write (hd : d.Sound) (hs : s.Stands t b d) (c : Bytes) :
    (s.write c d).1.Stands t (b ++ c) (s.write c d).2 ∧ Only [t] d (s.write c d).2 ∧
      (s.write c d).2.Sound :=
  have ⟨hgrows, honly⟩ := hs.toGrows.write hd c
  ⟨⟨hgrows, hs.temporary_eq⟩, honly, hd.write s.file c⟩

/-- **A staged file that is given up is gone,** and nothing else has changed. -/
theorem Stands.discard (hd : d.Sound) (hs : s.Stands t b d) :
    (s.discard d).entryAt? t = none ∧ Only [t] d (s.discard d) ∧ (s.discard d).Sound := by
  obtain ⟨honly, hsound⟩ := Disk.unlink_only hd hs.names
  refine ⟨?_, honly, hsound⟩
  rw [StagedFile.discard, Disk.unlink_of_file hs.names hs.entry_eq, Disk.entryAt?_clearEntry d hs.names.ne_nil,
    if_pos rfl]

/-- What committing a staged file comes to. -/
inductive Commits (s : StagedFile) (t : Place) (b : Bytes) (d : Disk) :
    Except IoError Unit × Disk → Prop
  | failed {e : IoError} {d' : Disk} : d'.entryAt? t = none → Only [t] d d' → d'.Sound →
      Commits s t b d (.error e, d')
  | placed {q : Place} {d' : Disk} : d.Names s.destination q → q ≠ t → d'.Holds q b →
      d'.entryAt? t = none → Only [t, q] d d' → d'.Sound → Commits s t b d (.ok (), d')

/-- **A commit puts all the bytes at the destination, or it is as if the file had been given up.** -/
theorem Stands.commit (hd : d.Sound) (hs : s.Stands t b d) (durable : Except IoError Unit)
    (fault? : Option Disk.Fault) : s.Commits t b d (s.commit d durable fault?) := by
  obtain ⟨hgone, honly, hsound⟩ := hs.discard hd
  rcases durable with e | ⟨⟩
  · exact .failed hgone honly hsound
  · rw [StagedFile.commit]
    rcases hr : d.attempt fault? (Disk.rename s.temporary s.destination) with ⟨e | ⟨⟩, d1⟩
    · cases Disk.attempt_of_error (fun _ => Disk.rename_of_error) hr
      exact .failed hgone honly hsound
    · obtain ⟨q, e, hq, -, -, hholds, hclear, honly, hsound⟩ :=
        Disk.rename_holds hd hs.names hs.holds (Disk.call_of_attempt hr)
      have hne := hs.names.ne (lastName?_temporaryPath_ne hs.temporary_eq) hq
      exact .placed hq (Ne.symm hne) hholds (hclear hne) honly hsound

end StagedFile

/-! ## A staged file as an output stream -/

namespace Staging

variable {s : Staging} {d : Disk} {t : Place} {base : Bytes} {destination : String}

/-- The file of a staging was created for a destination on the disk `d`, at the place `t`, and it holds
    what the device has taken behind `base`. -/
structure Stores (destination : String) (t : Place) (base : Bytes) (d : Disk) (s : Staging) : Prop where
  stands : ∃ b, s.device.taken = base ++ b ∧ s.file.Stands t b s.disk
  destination_eq : s.file.destination = destination
  only : Only [t] d s.disk
  sound : s.disk.Sound

/-- What the device takes is written to the file. -/
theorem Stores.follow (hs : Stores destination t base d s) {device : Sink} {more : Bytes}
    (h : device.taken = s.device.taken ++ more) : Stores destination t base d (s.follow device) := by
  obtain ⟨b, htaken, hstands⟩ := hs.stands
  obtain ⟨hstands, honly, hsound⟩ := hstands.write hs.sound more
  have heq : s.follow device = ⟨(s.file.write more s.disk).1, (s.file.write more s.disk).2, device⟩ := by
    rw [Staging.follow, h, List.drop_left]
  rw [heq]
  refine ⟨⟨b ++ more, ?_, hstands⟩, hs.destination_eq, hs.only.trans honly, hsound⟩
  rw [h, htaken, List.append_assoc]

/-- **No call on a staging lets its file go astray.** -/
theorem stable_stores : Output.Stable (Stores destination t base d) where
  write s b hs := by
    rcases Sink.write_spec s.device b with ⟨n, -, htaken⟩ | ⟨e, -, htaken⟩
    · exact hs.follow htaken
    · exact hs.follow (htaken.trans (List.append_nil _).symm)
  writeAll s b hs := by
    obtain ⟨given, -, htaken, -⟩ := Sink.writeAll_spec s.device b
    exact hs.follow htaken
  flush s hs := hs.follow ((Sink.taken_flush s.device).trans (List.append_nil _).symm)

/-- The answers to calls on a staging are the device's. -/
theorem maps_device : Output.Maps (fun s : Staging => s.device) where
  write _ _ := rfl
  writeAll _ _ := rfl
  flush _ := rfl

/-- A new staging stores nothing yet. -/
theorem stores_create {file : StagedFile} {d' : Disk} (hd : d.Sound) {fault? : Option Disk.Fault}
    (h : StagedFile.create destination d fault? = (.ok file, d')) (device : Sink) :
    ∃ t, Stores destination t device.taken d ⟨file, d', device⟩ := by
  obtain ⟨t, hstands, hdest, honly, hsound⟩ := StagedFile.create_stands hd h
  exact ⟨t, ⟨[], (List.append_nil _).symm, hstands⟩, hdest, honly, hsound⟩

end Staging

end Coffer
