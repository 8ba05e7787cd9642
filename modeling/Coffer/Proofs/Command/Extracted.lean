import Coffer.Command.Client
import Coffer.Proofs.Container.ToEnd
import Coffer.Proofs.Disk.Directories
import Coffer.Proofs.Resource.Local
/-
  What a decryption that fails leaves behind.

  A resource is read into a file that is opened and emptied first.  `Resource.ReadsFrom` says what a local
  resource reads from.  If reading fails, the file holds nothing or the front of what the resource
  decrypts to (`Remains`), and nothing is left of a resource in that very file.  All other files are as
  they were (`failed_decryption_spares_other_files`).
-/
namespace Coffer

open Cipher (Context Registry)
open Container (BodyReader Header Opens front headerSize)
open Resource (Handle Opened Opener ResourcePath)

/-! ## What a local resource reads from -/

namespace Resource

open Keyring (SecretSource)

variable {S : Type} [SecretSource S] {o o' : Opener S} {h : Handle} {d : Disk} {path : String}
  {opened : Opened}

/-- What the resource at a path reads from: a directory, or the bytes of a file, or with a cipher the
    bytes behind a header. -/
inductive ReadsFrom (d : Disk) (path : String) : Opened → Prop
  | directory : d.openRead path = .ok .directory → ReadsFrom d path (.plain .directory)
  | file {i : Nat} : d.openRead path = .ok (.file i) →
      ReadsFrom d path (.plain (.ofBytes (d.inode i).data))
  | body {i : Nat} {a : Algorithm} {left : Source} {ctx : Context} {D : Bytes → Bytes} :
      d.openRead path = .ok (.file i) → left.delivered = (d.inode i).data.drop headerSize →
      left.faults = [] → left.ending = .finished → 0 < ctx.blockSize → ctx.Decrypts D →
      ReadsFrom d path (.decrypting a (.ofSource left ctx))

/-- The ciphers that are built in are AES. -/
theorem exists_backend {instructions : Bool} {a : Algorithm} {cipher : Cipher.BlockCipher} {r : Registry}
    (h : (Registry.builtin instructions).get a = (.ok cipher, r)) :
    ∃ algorithm name, cipher = Cipher.Aes.backend algorithm name := by
  cases a with
  | aes =>
    cases h
    exact ⟨_, _, rfl⟩
  | aesAccel =>
    cases instructions with
    | true =>
      cases h
      exact ⟨_, _, rfl⟩
    | false => cases h
  | vendor => cases h

/-- A context that is keyed on a built-in cipher decrypts every block. -/
theorem decrypts_of_keys {instructions : Bool} {a : Algorithm} {cipher : Cipher.BlockCipher}
    {r : Registry} {name : String} {secret : Keyring.Passphrase} {header : Header} {key : Bytes}
    {keyed : Context} {check? : Option Bytes}
    (hcipher : (Registry.builtin instructions).get a = (.ok cipher, r))
    (hkeys : Keys cipher name secret header.salt header.cost check? (.ok (key, keyed))) :
    0 < (keyed.withIv .decrypt header.iv.val).blockSize ∧
      ∃ D, (keyed.withIv .decrypt header.iv.val).Decrypts D := by
  obtain ⟨algorithm, name', rfl⟩ := exists_backend hcipher
  cases hkeys with
  | keyed hsize hkey _ hset =>
    have hlength : Cipher.Aes.IsKeyLength key.length := .inr (.inr (Kdf.length_deriveKey hkey))
    obtain ⟨keyed', E, D, hset', hinverts⟩ := Cipher.Aes.keyed_inverts
      (show (Context.fresh (Cipher.Aes.backend algorithm name') name).cipher = _ from rfl) hlength
    cases hset.symm.trans hset'
    have hblock : keyed.cipher.blockSize = Container.ivSize := by
      rw [Context.setKey_cipher hset]
      exact hsize
    refine ⟨?_, D, hinverts.decrypts⟩
    show 0 < keyed.cipher.blockSize
    rw [hblock]
    decide

/-- A header is read from a file only, and what is behind it is left. -/
theorem readFrom_sourceFrom {source : Disk.Opened} {header : Header} {left : Source}
    (hread : Header.readFrom (d.sourceFrom 0 source) = (.ok header, left)) :
    ∃ i, source = .file i ∧ left.delivered = (d.inode i).data.drop headerSize ∧ left.faults = [] ∧
      left.ending = .finished := by
  obtain ⟨raw, hlength, hexact, -⟩ := Header.readFrom_eq_ok_iff.mp hread
  cases source with
  | directory =>
    obtain ⟨-, hrest⟩ := Source.readExact_eq_ok hexact
    rw [(List.append_eq_nil_iff.mp hrest.symm).1] at hlength
    cases hlength
  | file i =>
    have hfile : d.sourceFrom 0 (.file i) = .ofBytes (d.inode i).data := rfl
    obtain ⟨hdelivered, hfaults⟩ := Source.delivered_ofBytes (d.inode i).data
    rw [hfile] at hexact
    rcases Nat.lt_or_ge (Source.ofBytes (d.inode i).data).delivered.length headerSize with hlt | hle
    · obtain ⟨later, hearly⟩ := Source.readExact_of_lt rfl hfaults hlt
      cases hearly.symm.trans hexact
    · obtain ⟨later, hlater, hbehind, hnone, hending⟩ := Source.readExact_of_le rfl hfaults hle
      cases hlater.symm.trans hexact
      rw [hdelivered] at hbehind
      exact ⟨i, rfl, hbehind, hnone, hending⟩

/-- **A local resource that is opened reads from the file at its path,** or from a directory. -/
theorem readsFrom_of_openPath {instructions : Bool} (hr : o.registry = .builtin instructions)
    (hopen : o.openPath h d = (.ok opened, o')) : ReadsFrom d h.path opened := by
  rw [Opener.openPath] at hopen
  rcases hlocal : h.localPath with e | path
  · simp only [hlocal, error_bind] at hopen
    cases hopen
  cases localPath_eq_ok hlocal
  rcases hsource : d.openRead h.path with e | source
  · simp only [hlocal, ok_bind, hsource, error_mapError, error_bind] at hopen
    cases hopen
  simp only [hlocal, ok_bind, hsource, mapError_ok, pure_eq_ok] at hopen
  rcases hparams : h.encryption with e | _ | p
  · simp only [Opener.openRead, hparams] at hopen
    cases hopen
  · simp only [Opener.openRead, hparams] at hopen
    cases hopen
    cases source with
    | directory => exact .directory hsource
    | file i => exact .file hsource
  · have hvetted : o.registry.Vetted := by
      rw [hr]
      exact Cipher.Registry.vetted_builtin instructions
    have hreads := reads_openRead hvetted hparams (d.sourceFrom 0 source)
    rcases hresult : o.openRead h (d.sourceFrom 0 source) with ⟨outcome, used, left⟩
    rw [hresult] at hreads hopen
    cases hopen
    cases hreads with
    | opened hread _ hdrawn hkeys =>
      obtain ⟨i, rfl, hbehind, hnone, hending⟩ := readFrom_sourceFrom hread
      cases hdrawn with
      | drawn _ hcipher =>
        rw [hr] at hcipher
        obtain ⟨hsize, D, hD⟩ := decrypts_of_keys hcipher hkeys
        exact .body hsource hbehind hnone hending hsize hD

/-! ## What is given out -/

/-- What has been given out of a resource when reading it has failed; the file that it is read into is
    at the place `q`. -/
inductive Remains (d : Disk) (path : String) (q : Place) : Opened → Bytes → Prop
  /-- Nothing is read from a directory. -/
  | nothing : Remains d path q (.plain .directory) []
  /-- The resource was in that very file. -/
  | lost {a : Algorithm} {body : BodyReader} : d.Names path q → Remains d path q (.decrypting a body) []
  /-- The body does not open. -/
  | front {i : Nat} {a : Algorithm} {left : Source} {ctx : Context} {D : Bytes → Bytes} :
      ¬ d.Names path q → d.openRead path = .ok (.file i) →
      left.delivered = (d.inode i).data.drop headerSize → ctx.Decrypts D →
      (∀ data, ¬ Opens D ctx.blockSize ctx.decryptIv left.delivered data) →
      Remains d path q (.decrypting a (.ofSource left ctx))
        (front D ctx.blockSize ctx.decryptIv left.delivered)

/-- Plain bytes are read to their end. -/
theorem readToEnd_of_bytes (b : Bytes) : (Opened.plain (.ofBytes b)).readToEnd.1 = .ok () := by
  obtain ⟨-, hfaults⟩ := Source.delivered_ofBytes b
  obtain ⟨later, hread⟩ := Source.readToEndAfter_eq [] rfl hfaults
  rw [Opened.readToEnd, Source.readToEnd, hread]

/-- An empty body does not open, and has no front. -/
theorem readToEnd_of_emptied {ctx : Context} {D : Bytes → Bytes} (hsize : 0 < ctx.blockSize)
    (hD : ctx.Decrypts D) : (BodyReader.ofSource (.ofBytes []) ctx).readToEnd.2.1 = [] := by
  obtain ⟨hdelivered, hfaults⟩ := Source.delivered_ofBytes []
  obtain ⟨verdict, htells, -⟩ := BodyReader.readToEnd_tells hsize hD rfl hfaults
  rw [hdelivered] at htells
  generalize (BodyReader.ofSource (.ofBytes []) ctx).readToEnd.2.1 = total at htells ⊢
  cases htells with
  | sound hopens => exact absurd rfl hopens.1
  | spoilt _ =>
    rw [front, blocks_nil]
    rfl

/-- **What is given out before a failure** of the resource as it was opened. -/
theorem ReadsFrom.remains {q : Place} {e : IoError} (h : ReadsFrom d path opened)
    (hapart : ¬ d.Names path q) (hfails : opened.readToEnd.1 = .error e) :
    Remains d path q opened opened.readToEnd.2.1 := by
  cases h with
  | directory _ =>
    have hnothing : (Opened.plain .directory).readToEnd.2.1 = [] := by
      rw [Opened.readToEnd, Source.readToEnd_directory]
    rw [hnothing]
    exact .nothing
  | @file i _ => cases (readToEnd_of_bytes (d.inode i).data).symm.trans hfails
  | @body i a left ctx D hsource hbehind hnone hending hsize hD =>
    obtain ⟨hno, hfront⟩ := BodyReader.readToEnd_of_error hsize hD hending hnone hfails
    have hgiven : (Opened.decrypting a (.ofSource left ctx)).readToEnd.2.1 =
        front D ctx.blockSize ctx.decryptIv left.delivered := hfront
    rw [hgiven]
    exact .front hapart hsource hbehind hD hno

/-- **What is given out before a failure** when the file of the resource has been emptied. -/
theorem ReadsFrom.remains_emptied {q : Place} {e : IoError} (h : ReadsFrom d path opened)
    (hsame : d.Names path q) (hfails : opened.emptied.readToEnd.1 = .error e) :
    Remains d path q opened opened.emptied.readToEnd.2.1 := by
  cases h with
  | directory _ => cases (readToEnd_of_bytes []).symm.trans hfails
  | file _ => cases (readToEnd_of_bytes []).symm.trans hfails
  | @body i a left ctx D _ _ _ _ hsize hD =>
    have hgiven : (Opened.decrypting a (.ofSource left ctx)).emptied.readToEnd.2.1 = [] :=
      readToEnd_of_emptied hsize hD
    rw [hgiven]
    exact .lost hsame

end Resource

/-! ## Decrypting into a file -/

namespace Command.Client

open Disk (Grows Only blank blank_sound)
open Resource (ReadsFrom Remains)

variable {c : Config} {s : Surroundings} {m : Machine} {d d' : Disk} {opened : Opened} {f : OpenFile}
  {q : Place} {path source uri : String}

/-- The file at `path` is the only one that is different, and it holds what was given out. -/
structure Filled (path : String) (q : Place) (given : Bytes) (d d' : Disk) : Prop where
  names : d.Names path q
  only : Only [q] d d'
  sound : d'.Sound
  holds : d'.Holds q given

/-- What extracting the resource at `source` into the file at `path` comes to: the file could not be
    opened, or it was filled with what was given out. -/
inductive Extracts (opened : Opened) (source path : String) (d : Disk) :
    Except Report Unit × Disk → Prop
  | refused (r : Report) : Extracts opened source path d (.error r, d)
  | extracted {q : Place} {given : Bytes} {d' : Disk} : Filled path q given d d' →
      Extracts opened source path d (.ok (), d')
  | broken {r : Report} {q : Place} {given : Bytes} {d' : Disk} : Filled path q given d d' →
      Remains d source q opened given → Extracts opened source path d (.error r, d')

/-- What is given out is written to the file that was opened. -/
theorem extracts_of_given {reader : Opened} (hsound : d'.Sound) (honly : Only [q] d d')
    (hgrows : Grows f path q [] d')
    (hremains : ∀ e, reader.readToEnd.1 = .error e → Remains d source q opened reader.readToEnd.2.1) :
    Extracts opened source path d (reader.readToEnd.1.mapError (.ofIo "reading resource"),
      (d'.write f reader.readToEnd.2.1).2) := by
  obtain ⟨hwritten, honly'⟩ := hgrows.write hsound reader.readToEnd.2.1
  have hfilled : Filled path q reader.readToEnd.2.1 d (d'.write f reader.readToEnd.2.1).2 :=
    ⟨honly.names_iff.mp hgrows.names, honly.trans honly', hsound.write f reader.readToEnd.2.1,
      hwritten.holds⟩
  rcases hending : reader.readToEnd.1 with e | ⟨⟩
  · exact .broken hfilled (hremains e hending)
  · exact .extracted hfilled

/-- **Extracting changes the output file only.** -/
theorem extracts_extract (hd : d.Sound) (hreads : ReadsFrom d source opened) (path : String) :
    Extracts opened source path d (extract opened (d.openRead source) path d) := by
  obtain ⟨found, hfound⟩ : ∃ found, d.openRead source = .ok found := by
    cases hreads <;> exact ⟨_, by assumption⟩
  rw [extract, hfound]
  rcases hcreate : d.create path 0o644 with ⟨e | f, d₁⟩
  · cases Disk.create_of_error hcreate
    exact .refused _
  · obtain ⟨q, hgrows, honly, hsound⟩ := Disk.create_grows hd hcreate
    have hiff := Disk.names_iff_of_create hd hcreate (honly.names_iff.mp hgrows.names) hfound
    -- Opening the output has emptied it: what is read is what was there, unless the two are one file.
    by_cases hsame : found = .file f.inode
    · rw [hsame]
      simp only [if_true]
      exact extracts_of_given hsound honly hgrows fun e => hreads.remains_emptied (hiff.mpr hsame)
    · have hremains := fun e => hreads.remains (e := e) fun hnames => hsame (hiff.mp hnames)
      rcases found with i | -
      · have hother : ¬ i = f.inode := fun hi => hsame (by rw [hi])
        simp only [if_neg hother]
        exact extracts_of_given hsound honly hgrows hremains
      · exact extracts_of_given hsound honly hgrows hremains

/-- What a decryption that fails leaves on the disk: everything as it was, or the file at `path` filled
    with what was given out of the resource before reading failed. -/
inductive Leaves (o : Opener (Keyring.Channel × Machine)) (uri path : String) (d d' : Disk) : Prop
  | untouched : d' = d → Leaves o uri path d d'
  | written {resource : ResourcePath} {opened : Opened} {o' : Opener (Keyring.Channel × Machine)}
      {q : Place} {given : Bytes} : ResourcePath.parse uri = .ok resource →
      o.openPath resource.handle d = (.ok opened, o') → Filled path q given d d' →
      Remains d resource.path q opened given → Leaves o uri path d d'

/-- **A decryption that fails changes the output file at most.** -/
theorem leaves_decrypt (hd : m.disk.Sound) (hfails : (decrypt c s uri (some path) m).1.code ≠ 0) :
    Leaves (opener c s m) uri path m.disk (decrypt c s uri (some path) m).2.disk := by
  rw [decrypt] at hfails ⊢
  rcases hparse : ResourcePath.parse uri with e | resource
  · exact .untouched rfl
  rcases hopen : (opener c s m).openPath resource.handle m.disk with ⟨e | opened, o⟩
  · simp only [hopen]
    exact .untouched rfl
  simp only [hparse, hopen] at hfails ⊢
  have hreads : ReadsFrom m.disk resource.path opened := Resource.readsFrom_of_openPath rfl hopen
  have hextracts := extracts_extract hd hreads path
  rcases hextract : extract opened (m.disk.openRead resource.path) path m.disk with ⟨r | ⟨⟩, d'⟩ <;>
    rw [hextract] at hextracts
  · cases hextracts with
    | refused _ => exact .untouched rfl
    | broken hfilled hremains => exact .written hparse hopen hfilled hremains
  · rw [hextract] at hfails
    exact absurd rfl hfails

theorem Leaves.spares {o : Opener (Keyring.Channel × Machine)} (h : Leaves o uri path d d')
    (hapart : ¬ d.Names path q) : d.SameAt d' q := by
  cases h with
  | untouched heq =>
    rw [heq]
    exact .refl d q
  | written _ _ hfilled _ =>
    refine hfilled.only.same q fun hmem => hapart ?_
    rw [List.mem_singleton.mp hmem]
    exact hfilled.names

theorem Leaves.keeps {o : Opener (Keyring.Channel × Machine)} (h : Leaves o uri path d d') : d.Keeps d' := by
  cases h with
  | untouched heq =>
    rw [heq]
    exact .refl d
  | written _ _ hfilled _ => exact hfilled.only.keeps

theorem Leaves.sound {o : Opener (Keyring.Channel × Machine)} (h : Leaves o uri path d d')
    (hd : d.Sound) : d'.Sound := by
  cases h with
  | untouched heq =>
    rw [heq]
    exact hd
  | written _ _ hfilled _ => exact hfilled.sound

/-- A command line that asks for a decryption loads the configuration first. -/
theorem run_of_decrypt {args : List String} {given : Given}
    (hread : form.read s.environment args = .ok given)
    (htask : task? given = some (.decrypt uri (some path))) (m : Machine) :
    run args s m = match Config.load given.configPath m.disk with
      | .error f => (.failure (.ofFault f), m)
      | .ok c => decrypt (configure c given) s uri (some path) m := by
  rw [run, hread]
  simp only [htask]
  rcases Config.load given.configPath m.disk with f | c <;> rfl

/-- **A decryption that fails spares all files but the one that it was to write,** the resource's own
    among them, and reading through another path gives the same bytes.  Nothing at all has changed, or
    the resource was opened, and what was given out of it before the failure is in the output file:
    nothing, or the front of a body that does not open.  If the resource was in that very file, it is
    lost. -/
theorem failed_decryption_spares_other_files {args : List String} {given : Given} (hd : m.disk.Sound)
    (hread : form.read s.environment args = .ok given)
    (htask : task? given = some (.decrypt uri (some path))) (hfails : (run args s m).1.code ≠ 0) :
    (∀ q, ¬ m.disk.Names path q → m.disk.SameAt (run args s m).2.disk q) ∧
    (∀ other b, (∀ q, m.disk.Names other q → ¬ m.disk.Names path q) → m.disk.readFile other = .ok b →
      (run args s m).2.disk.readFile other = .ok b) ∧
    ((run args s m).2.disk = m.disk ∨ ∃ c, Config.load given.configPath m.disk = .ok c ∧
      Leaves (opener (configure c given) s m) uri path m.disk (run args s m).2.disk) := by
  have hrun := run_of_decrypt hread htask m
  rcases hload : Config.load given.configPath m.disk with fault | c <;> rw [hload] at hrun
  · rw [hrun]
    exact ⟨fun q _ => .refl _ q, fun _ _ _ hother => hother, .inl rfl⟩
  · rw [hrun] at hfails ⊢
    have hleaves := leaves_decrypt hd hfails
    have hsound := hleaves.sound hd
    generalize (decrypt (configure c given) s uri (some path) m).2.disk = d' at hleaves hsound ⊢
    refine ⟨fun q => hleaves.spares, fun other b hapart hother => ?_, .inr ⟨c, rfl, hleaves⟩⟩
    obtain ⟨q, hnames, hholds⟩ := hd.readFile_eq_ok_iff.mp hother
    exact hsound.readFile_eq_ok_iff.mpr
      ⟨q, hnames.of_keeps hleaves.keeps, hholds.of_sameAt (hleaves.spares (hapart q hnames))⟩

/-- A disk with a directory `/d`, and a file `/out` that holds one byte. -/
def cluttered : Disk :=
  (((blank.makeDirectory "/d" 0o755).2.create "/out" 0o644).2.write ⟨0, 0⟩ [7]).2

theorem cluttered_sound : cluttered.Sound := by
  have hmade := (Disk.makeDirectory_deepens blank_sound "/d" 0o755).2
  exact (((blank.makeDirectory "/d" 0o755).2.create_spec "/out" 0o644).sound hmade).write _ _

/-- Nothing is set in the environment. -/
def bare : Surroundings := ⟨fun _ => none, Resource.localNonces⟩

/-- A command line that asks for the directory to be decrypted into the file. -/
def extraction : List String := ["decrypt", "vfile:/d", "-o", "/out"]

/-- What it gives. -/
def requested : Given := ⟨["decrypt"], [("output", "/out")], ["vfile:/d"]⟩

theorem read_extraction : form.read bare.environment extraction = .ok requested := by rfl

theorem task_requested : task? requested = some (.decrypt "vfile:/d" (some "/out")) := by rfl

/-- Nothing is read from the directory, and nothing is left in the file. -/
theorem extract_directory : extract (.plain .directory) (cluttered.openRead "/d") "/out" cluttered =
    (.error (.ofIo "reading resource" .isDirectory), ((cluttered.setData 0 []).write ⟨0, 0⟩ []).2) := by
  have hcreate : cluttered.create "/out" 0o644 = (.ok ⟨0, 0⟩, cluttered.setData 0 []) := by rfl
  have hsource : cluttered.openRead "/d" = .ok .directory := by rfl
  rw [extract, hcreate, hsource]
  simp only [Opened.readToEnd, Source.readToEnd_directory]
  rfl

theorem run_extraction : ∃ o, run extraction bare (.ofDisk cluttered) =
    (.failure (.ofIo "reading resource" .isDirectory),
      settle o ((cluttered.setData 0 []).write ⟨0, 0⟩ []).2) := by
  have hload : Config.load requested.configPath (Machine.ofDisk cluttered).disk = .ok .standard := by rfl
  have hrun := run_of_decrypt read_extraction task_requested (.ofDisk cluttered)
  have hparse : ResourcePath.parse "vfile:/d" = .ok ⟨"vfile", none, "/d", []⟩ := by rfl
  have hopen : (opener (configure .standard requested) bare (.ofDisk cluttered)).openPath
      (ResourcePath.handle ⟨"vfile", none, "/d", []⟩) (Machine.ofDisk cluttered).disk =
        (.ok (.plain .directory), opener (configure .standard requested) bare (.ofDisk cluttered)) := by rfl
  have hextract : extract (.plain .directory) ((Machine.ofDisk cluttered).disk.openRead "/d") "/out"
      (Machine.ofDisk cluttered).disk = _ := extract_directory
  refine ⟨opener (configure .standard requested) bare (.ofDisk cluttered), ?_⟩
  rw [hrun, hload]
  simp only [decrypt, hparse, hopen, hextract]

/-- A decryption of the directory into `/out` leaves the directory alone. -/
theorem failed_decryption_spares_other_files_of_directory :
    (run extraction bare (.ofDisk cluttered)).1.code = 1 ∧
      cluttered.SameAt (run extraction bare (.ofDisk cluttered)).2.disk ["d"] := by
  obtain ⟨o, hrun⟩ := run_extraction
  have hcode : (run extraction bare (.ofDisk cluttered)).1.code = 1 := by
    rw [hrun]
    rfl
  have hplace : cluttered.placeOf "/out" = ["out"] := by rfl
  have hsound : (Machine.ofDisk cluttered).disk.Sound := cluttered_sound
  have hfails : (run extraction bare (.ofDisk cluttered)).1.code ≠ 0 := by
    rw [hcode]
    decide
  have hspares := (failed_decryption_spares_other_files hsound read_extraction task_requested
    hfails).1 ["d"]
  refine ⟨hcode, hspares fun hnames => ?_⟩
  exact absurd (hplace.symm.trans hnames.placeOf_eq) (by decide)

/-- **A decryption that fails empties the file that it was to write.** -/
theorem failed_decryption_empties_the_output :
    (run extraction bare (.ofDisk cluttered)).1.code = 1 ∧ cluttered.readFile "/out" = .ok [7] ∧
      (run extraction bare (.ofDisk cluttered)).2.disk.readFile "/out" = .ok [] := by
  obtain ⟨o, hrun⟩ := run_extraction
  rw [hrun]
  exact ⟨by rfl, by rfl, by rfl⟩

end Command.Client

end Coffer
