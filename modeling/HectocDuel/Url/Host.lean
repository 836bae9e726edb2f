/-
  Names of hosts.

  A host is an address in brackets, or a name.  On the web a name is resolved
  further: its escapes are resolved, it is brought to ASCII, and one that ends in a
  number has to be an address.  Elsewhere a name only must not hold characters that
  end it.

  * `HostNames` says how a name is brought to ASCII, and is left open;
  * `isWebHost` and `isOpaqueHost` tell which texts are hosts.
-/
import HectocDuel.Url.Address
import HectocDuel.Url.Percent

namespace HectocDuel.Url

/-- How names are brought to ASCII.  The rule rests on tables of all characters, and what is
    shown of references holds whatever it says. -/
class HostNames where
  /-- The form of a name in ASCII; none if the name is in error. -/
  toAscii? : List Char → Option (List Char)

/-- The rule without tables: small letters.  It is exact for names of ASCII none of whose labels
    begins with `xn--`, and leaves other characters as they are. -/
instance (priority := low) smallLetters : HostNames where
  toAscii? name := some (name.map Char.toLower)

/-- Whether a character cannot stand in the name of any host. -/
def isForbiddenInHost (c : Char) : Bool :=
  c ∈ [Char.ofNat 0, '\t', '\n', '\r', ' ', '#', '/', ':', '<', '>', '?', '@', '[', '\\', ']',
    '^', '|']

/-- Whether a character cannot stand in the name of a host on the web. -/
def isForbiddenInDomain (c : Char) : Bool :=
  isForbiddenInHost c || c < ' ' || c = '%' || c = '\x7f'

/-- Whether a text in brackets is an address; nothing is said of other texts. -/
def bracketed? (cs : List Char) : Option Bool :=
  if cs.head? = some '[' then
    some (cs.getLast? = some ']' && isEightGroupAddress cs.tail.dropLast)
  else none

/-- Whether a name in ASCII is one of a host on the web. -/
def isDomain (name : List Char) : Bool :=
  name ≠ [] && !name.any isForbiddenInDomain && (!endsInNumber name || isFourByteAddress name)

/-- Whether a text is a host on the web.  Bytes that are no text are no name. -/
def isWebHost [HostNames] (cs : List Char) : Bool :=
  (bracketed? cs).getD <|
    ((Text.ofBytes? (decode (Text.bytesOf (String.ofList cs)))).bind
      (HostNames.toAscii? ·.toList)).any isDomain

/-- Whether a text is a host elsewhere. -/
def isOpaqueHost (cs : List Char) : Bool :=
  (bracketed? cs).getD (!cs.any isForbiddenInHost)

end HectocDuel.Url
