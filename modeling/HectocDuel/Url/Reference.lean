/-
  References and where they point.

  A reference is read relative to the root of a server on the web.  It may name a
  scheme or an authority of its own; both are checked, and only the path and the
  query behind them count.  A reference that is in error, or whose path is not made
  of segments, points nowhere.

  * `locate?` gives the segments and the query that a reference points to.
-/
import HectocDuel.Text.Cut
import HectocDuel.Url.Host

namespace HectocDuel.Url

/-- Where a reference points. -/
structure Location where
  /-- The segments of the path, as they are written. -/
  segments : List (List Char)
  query : Option (List Char)
  deriving DecidableEq, Repr

/-! ## Schemes -/

/-- The kinds of schemes that are read differently. -/
inductive Scheme where
  | web
  | file
  | other
  deriving DecidableEq, Repr

/-- The scheme of the server itself. -/
def ownScheme : List Char :=
  ['h', 't', 't', 'p']

/-- The kind of a scheme. -/
def Scheme.ofName (name : List Char) : Scheme :=
  if String.ofList name ∈ ["http", "https", "ws", "wss", "ftp"] then .web
  else if String.ofList name = "file" then .file
  else .other

/-- Whether a character may stand in the name of a scheme behind its first. -/
def isSchemeChar (c : Char) : Bool :=
  c.isAlphanum || c = '+' || c = '-' || c = '.'

/-- The scheme in front of a reference, in small letters, and what follows it. -/
def cutScheme? (cs : List Char) : Option (List Char × List Char) :=
  match cs, cs.span isSchemeChar with
  | c :: _, (name, ':' :: rest) => if c.isAlpha then some (name.map Char.toLower, rest) else none
  | _, _ => none

/-- Whether a character separates segments. -/
def Scheme.isSlash (s : Scheme) (c : Char) : Bool :=
  c = '/' || (s ≠ .other && c = '\\')

/-! ## Paths -/

/-- The spellings of a point in a segment. -/
def points : List (List Char) :=
  [['.'], ['%', '2', 'e'], ['%', '2', 'E']]

/-- Whether a segment stays where it is. -/
def isHere (segment : List Char) : Bool :=
  segment ∈ points

/-- Whether a segment goes one step up. -/
def isUp (segment : List Char) : Bool :=
  segment ∈ points.flatMap fun p => points.map (p ++ ·)

/-- Whether a segment names a drive. -/
def isDrive : List Char → Bool
  | [c, d] => c.isAlpha && (d = ':' || d = '|')
  | _ => false

/-- One step up from a path.  No step leads out of a drive. -/
def stepUp (path : List (List Char)) : List (List Char) :=
  if path.getLast?.any isDrive then path else path.dropLast

/-- A segment as it is written. -/
def Scheme.written (s : Scheme) (segment : List Char) : List Char :=
  match s, isDrive segment, segment with
  | .file, true, c :: _ => [c, ':']
  | _, _, _ => escapePath segment

/-- Goes along segments from a path. -/
def Scheme.follow (s : Scheme) (path : List (List Char)) : List (List Char) → List (List Char)
  | [] => path
  | p :: ps =>
    let there :=
      if isUp p then stepUp path else if isHere p then path else path ++ [s.written p]
    if ps = [] then if isUp p || isHere p then there ++ [[]] else there
    else s.follow there ps

/-- A path without empty segments in front. -/
def collapse : List (List Char) → List (List Char)
  | [] :: s :: ss => collapse (s :: ss)
  | ss => ss

/-- Where a path and what follows it point; the slash in front is not given. -/
def Scheme.goTo (s : Scheme) (cs : List Char) : Location :=
  let (reference, _) := Text.cut (· = '#') cs
  let (path, query) := Text.cut (· = '?') reference
  let segments := s.follow [] (Text.pieces s.isSlash path)
  ⟨if s = .file then collapse segments else segments, query⟩

/-- As `goTo`, after a slash that may be given. -/
def Scheme.goToSlash (s : Scheme) (cs : List Char) : Location :=
  match cs with
  | c :: rest => if s.isSlash c then s.goTo rest else s.goTo cs
  | [] => s.goTo []

/-! ## Authorities -/

/-- Whether a character ends an authority. -/
def Scheme.endsAuthority (s : Scheme) (c : Char) : Bool :=
  s.isSlash c || c = '?' || c = '#'

/-- The host in front of an authority, and what follows it.  A colon in brackets
    does not end it. -/
def spanHost (inside : Bool) : List Char → List Char × List Char
  | [] => ([], [])
  | c :: cs =>
    if c = ':' && !inside then ([], c :: cs)
    else
      let (host, rest) := spanHost (c = '[' || (inside && c ≠ ']')) cs
      (c :: host, rest)

/-- What follows a port; none if it is no port.  A port that is not given is one. -/
def afterPort? : List Char → Option (List Char)
  | ':' :: cs =>
    let (digits, rest) := cs.span Char.isDigit
    let number := digits.foldl (fun n c => 10 * n + (c.toNat - '0'.toNat)) 0
    if number < UInt16.size ∧ (rest = [] ∨ rest.head? = some '\\') then some rest else none
  | rest => some rest

/-- What follows an authority; none if it is in error.  Only a host on the web has
    to have a name. -/
def Scheme.afterAuthority? [HostNames] (s : Scheme) (cs : List Char) : Option (List Char) :=
  let (authority, behind) := cs.span (!s.endsAuthority ·)
  let (user, place) := (Text.cutLast? (· = '@') authority).getD ([], authority)
  let isMarked := '@' ∈ authority
  let (host, rest) := spanHost false place
  if isMarked ∧ user = [] ∧ place = [] ∧ behind ≠ [] then none
  else if host = [] ∧ (s = .web ∨ rest ≠ [] ∨ (user ≠ [] ∧ user ≠ [':'])) then none
  else if (if s = .web then isWebHost host else isOpaqueHost host) then
    (afterPort? rest).map (· ++ behind)
  else none

/-- Where a reference points behind the two slashes of an authority. -/
def Scheme.goToAuthority? [HostNames] (s : Scheme) (cs : List Char) : Option Location := do
  let rest ← s.afterAuthority? cs
  match s, rest.head? with
  | .other, none => none
  | .other, some c => if c = '?' ∨ c = '#' then none else some (s.goToSlash rest)
  | _, _ => some (s.goToSlash rest)

/-! ## References -/

/-- Where a reference without a scheme points. -/
def relative? [HostNames] (cs : List Char) : Option Location :=
  match cs with
  | c :: d :: rest =>
    if Scheme.web.isSlash c then
      if Scheme.web.isSlash d then
        Scheme.web.goToAuthority? <|
          if c = '/' ∧ d = '/' then rest else rest.dropWhile Scheme.web.isSlash
      else some (Scheme.web.goTo (d :: rest))
    else some (Scheme.web.goTo cs)
  | cs => some (Scheme.web.goToSlash cs)

/-- Where a reference to a file points. -/
def file? [HostNames] (cs : List Char) : Option Location :=
  match cs with
  | c :: d :: rest =>
    if Scheme.file.isSlash c && Scheme.file.isSlash d then
      let (host, behind) := rest.span (!Scheme.file.endsAuthority ·)
      if isDrive host then some (Scheme.file.goTo rest)
      else if host = [] ∨ isWebHost host then some (Scheme.file.goToSlash behind)
      else none
    else some (Scheme.file.goToSlash cs)
  | cs => some (Scheme.file.goToSlash cs)

/-- Where a reference points behind the colon of its scheme. -/
def absolute? [HostNames] (name rest : List Char) : Option Location :=
  match Scheme.ofName name with
  | .web =>
    if name = ownScheme ∧ (rest.takeWhile Scheme.web.isSlash).length < 2 then relative? rest
    else Scheme.web.goToAuthority? (rest.dropWhile Scheme.web.isSlash)
  | .file => file? rest
  | .other =>
    match rest with
    | '/' :: '/' :: rest => Scheme.other.goToAuthority? rest
    | '/' :: rest => some (Scheme.other.goTo rest)
    | _ => none

/-- A reference without the controls and spaces around it, and without tabs and
    line ends inside. -/
def stripped (cs : List Char) : List Char :=
  let isEdge (c : Char) : Bool := c ≤ ' '
  ((cs.dropWhile isEdge).reverse.dropWhile isEdge).reverse.filter fun c =>
    c ≠ '\t' && c ≠ '\n' && c ≠ '\r'

/-- Where a reference points. -/
def locate? [HostNames] (reference : String) : Option Location :=
  let cs := stripped reference.toList
  match cutScheme? cs with
  | some (name, rest) => absolute? name rest
  | none => relative? cs

end HectocDuel.Url
