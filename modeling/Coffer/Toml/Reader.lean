import Coffer.Toml.Finding
/-
  Readers of the characters of a document.

  A reader that stands at some place either reads and moves on, or it declines, so that another one
  may be tried at the same place, or it refuses the document.  Whichever of the two it does, it
  files a complaint: where it stopped, and what it knows about the reason.

  * `orElse`   — try a second reader where the first one declines;
  * `must`     — refuse where a reader declines;
  * `repeated` — go on until a reader declines, and stay where it did;
  * `within`, `wanting` — add to a complaint what was being read and what could have followed.

  A reader that is made of two in a row stops where the second one stopped; only `orElse`,
  `optional`, `ahead` and `repeated` go back.
-/
namespace Coffer.Toml

/-! ## Places -/

/-- A place in a document: the number of bytes in front of it, and the characters behind it. -/
structure Cursor where
  offset : Nat
  rest : List Char

/-- The passage of the character behind a place, or the empty one at the end. -/
def Cursor.span (p : Cursor) : Span :=
  ⟨p.offset, p.offset + match p.rest with | c :: _ => c.utf8Size | [] => 0⟩

/-- Why a reader stopped, and where.  The construct is the innermost one. -/
structure Complaint where
  span : Span
  construct : Option String
  wanted : List String
  cause : Option Cause
  deriving DecidableEq, Repr

namespace Complaint

/-- Nothing is known but the place. -/
def here (p : Cursor) : Complaint := ⟨p.span, none, [], none⟩

/-- The finding of a complaint that is upheld. -/
def finding (c : Complaint) : Finding := ⟨c.span, .grammar c.construct c.wanted c.cause⟩

end Complaint

/-! ## Readers -/

/-- What a reader does. -/
inductive Reading (α : Type)
  | read (a : α) (p : Cursor)
  /-- Another reader may be tried. -/
  | declined (c : Complaint)
  /-- The document is refused. -/
  | refused (c : Complaint)

/-- A reader of an `α`. -/
def Reader (α : Type) := Cursor → Reading α

namespace Reading

variable {α β : Type}

/-- Go on from what was read. -/
def bind (r : Reading α) (next : α → Reader β) : Reading β :=
  match r with
  | read a p => next a p
  | declined c => declined c
  | refused c => refused c

/-- Add to a complaint. -/
def explain (f : Complaint → Complaint) : Reading α → Reading α
  | read a p => read a p
  | declined c => declined (f c)
  | refused c => refused (f c)

end Reading

namespace Reader

variable {α β : Type}

instance : Monad Reader where
  pure a := fun p => .read a p
  bind r next := fun p => (r p).bind next

/-- Read nothing and decline. -/
def decline : Reader α := fun p => .declined (.here p)

/-- Refuse the document here, for a cause. -/
def refuse (cause : Cause) : Reader α := fun p =>
  .refused { Complaint.here p with cause := some cause }

/-- The second reader where the first one declines. -/
def orElse (r s : Reader α) : Reader α := fun p =>
  match r p with
  | .declined _ => s p
  | other => other

/-- Refuse where a reader declines. -/
def must (r : Reader α) : Reader α := fun p =>
  match r p with
  | .declined c => .refused c
  | other => other

/-- Read something if it is there. -/
def optional (r : Reader α) : Reader (Option α) := orElse (some <$> r) (pure none)

/-- Read, and stay. -/
def ahead (r : Reader α) : Reader α := fun p =>
  match r p with
  | .read a _ => .read a p
  | .declined _ => .declined (.here p)
  | .refused _ => .refused (.here p)

/-- Say what was being read, unless it is known more exactly. -/
def within (construct : String) (r : Reader α) : Reader α := fun p =>
  (r p).explain fun c => { c with construct := c.construct <|> some construct }

/-- Say what could have followed. -/
def wanting (what : String) (r : Reader α) : Reader α := fun p =>
  (r p).explain fun c => { c with wanted := c.wanted ++ [what] }

/-- Decline, where the reader started, if what it read cannot stand. -/
def checked (check : α → Except Cause β) (r : Reader α) : Reader β := fun p =>
  match r p with
  | .read a q =>
    match check a with
    | .ok b => .read b q
    | .error cause => .declined { Complaint.here p with cause := some cause }
  | .declined c => .declined c
  | .refused c => .refused c

/-- What was read, with its passage. -/
def spanned (r : Reader α) : Reader (α × Span) := fun p =>
  match r p with
  | .read a q => .read (a, ⟨p.offset, q.offset⟩) q
  | .declined c => .declined c
  | .refused c => .refused c

/-- Take steps for as long as they are not declined, at most as many as `bound` is long. -/
def steps (step : β → Reader β) (bound : List Char) (b : β) : Reader β := fun p =>
  match bound with
  | [] => .read b p
  | _ :: bound =>
    match step b p with
    | .read b q => steps step bound b q
    | .declined _ => .read b p
    | .refused c => .refused c

/-- Take steps until one is declined.  A step that reads must read at least one character. -/
def repeated (step : β → Reader β) (b : β) : Reader β := fun p => steps step p.rest b p

/-- Read items until one is declined. -/
def many (item : Reader α) : Reader (List α) :=
  List.reverse <$> repeated (fun items => (· :: items) <$> item) []

/-- Items with separators between them, at least one. -/
def separated (item : Reader α) (separator : Reader Unit) : Reader (List α) := do
  let first ← item
  List.reverse <$> repeated (fun items => do
    separator
    return (← item) :: items) [first]

/-! ## Characters -/

/-- The next character, without moving. -/
def next? : Reader (Option Char) := fun p => .read p.rest.head? p

/-- One character that a test admits. -/
def satisfying (test : Char → Bool) : Reader Char := fun p =>
  match p.rest with
  | c :: rest => if test c then .read c ⟨p.offset + c.utf8Size, rest⟩ else .declined (.here p)
  | [] => .declined (.here p)

/-- A certain character. -/
def char (c : Char) : Reader Unit := (fun _ => ()) <$> satisfying (· == c)

/-- Characters that are there one after the other. -/
def word (w : List Char) : Reader Unit := fun p =>
  if w.isPrefixOf p.rest then
    .read () ⟨p.offset + (w.map Char.utf8Size).foldr (· + ·) 0, p.rest.drop w.length⟩
  else .declined (.here p)

/-- What a test admits of `cs` until it admits no more, and where that ends; `taken` was read
    already, the last character first. -/
def takeFrom (test : Char → Bool) (taken : List Char) (offset : Nat) :
    List Char → List Char × Cursor
  | c :: rest =>
    if test c then takeFrom test (c :: taken) (offset + c.utf8Size) rest
    else (taken.reverse, ⟨offset, c :: rest⟩)
  | [] => (taken.reverse, ⟨offset, []⟩)

/-- The characters that a test admits, up to the first one that it does not. -/
def run (test : Char → Bool) : Reader (List Char) := fun p =>
  let (cs, q) := takeFrom test [] p.offset p.rest
  .read cs q

/-- At least one character that a test admits. -/
def runOfSome (test : Char → Bool) : Reader (List Char) := fun p =>
  let (cs, q) := takeFrom test [] p.offset p.rest
  if cs.isEmpty then .declined (.here p) else .read cs q

/-- Nothing is left. -/
def atEnd : Reader Unit := fun p =>
  if p.rest.isEmpty then .read () p else .declined (.here p)

end Reader

end Coffer.Toml
